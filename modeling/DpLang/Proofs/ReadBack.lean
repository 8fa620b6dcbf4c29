import DpLang.Proofs.Equations
import DpLang.Proofs.Pieces

/-!
# Reading pieces

`Reads p x y P` says that wherever the pieces `x` stand in front of the cursor, blanks apart, the
parser `p` succeeds with a result that satisfies `P`, and leaves the pieces `y`. Such facts are
chained like the parsers themselves.
-/

namespace DpLang

/-- The kind of the first piece. -/
def headKind? (pieces : List Piece) : Option TokenKind := pieces.head?.map Prod.fst

lemma headKind?_cons (piece : Piece) (x : List Piece) : headKind? (piece :: x) = some piece.1 := rfl

namespace Cursor

/-- The tokens in front of the cursor, apart from blanks, are the pieces. -/
def Sees (pieces : List Piece) (c : Cursor) : Prop := piecesOf c.rest = pieces

variable {c : Cursor} {kind : TokenKind} {text : Text} {pieces : List Piece}

lemma piecesOf_dropWhile (tokens : List Token) :
    piecesOf (tokens.dropWhile Token.isSpace) = piecesOf tokens := by
  induction tokens with
  | nil => rfl
  | cons t tokens ih =>
    by_cases ht : t.isSpace = true
    · rw [List.dropWhile_cons_of_pos ht, ih, piecesOf_cons, if_pos (beq_iff_eq.1 ht)]
      rfl
    · rw [List.dropWhile_cons_of_neg ht]

lemma Sees.settle (h : c.Sees pieces) : c.settle.Sees pieces := (piecesOf_dropWhile c.rest).trans h

lemma piecesOf_settle {t : Token} {ts : List Token} (h : c.settle.rest = t :: ts) :
    piecesOf c.rest = (t.kind, t.text) :: piecesOf ts := by
  have hspace := List.head?_dropWhile_not Token.isSpace c.rest
  rw [← settle_rest, h] at hspace
  have hkind : t.kind ≠ .space := fun hk => by simp [Token.isSpace, hk] at hspace
  rw [← piecesOf_dropWhile, ← settle_rest, h, piecesOf_cons, if_neg hkind]
  rfl

lemma Sees.head (h : c.Sees ((kind, text) :: pieces)) :
    ∃ t ts, c.settle.rest = t :: ts ∧ t.kind = kind ∧ t.text = text ∧
      (c.settle.behind t ts).Sees pieces := by
  cases hrest : c.settle.rest with
  | nil =>
    have hnone : piecesOf c.rest = [] := by rw [← piecesOf_dropWhile, ← settle_rest, hrest]; rfl
    rw [Sees, hnone] at h
    cases h
  | cons t ts =>
    have hsees := (piecesOf_settle hrest).symm.trans h
    obtain ⟨hpiece, hpieces⟩ := List.cons.inj hsees
    obtain ⟨hkind, htext⟩ := Prod.mk.inj hpiece
    refine ⟨t, ts, rfl, hkind, htext, ?_⟩
    rw [Sees, behind_rest, piecesOf_dropWhile, hpieces]

lemma Sees.peekKind? (h : c.Sees pieces) : c.peekKind? = headKind? pieces := by
  cases hrest : c.settle.rest with
  | nil =>
    have hnone : piecesOf c.rest = [] := by rw [← piecesOf_dropWhile, ← settle_rest, hrest]; rfl
    rw [← h, hnone, Cursor.peekKind?, peek?, hrest]
    rfl
  | cons t ts =>
    rw [← h, piecesOf_settle hrest, Cursor.peekKind?, peek?, hrest]
    rfl

end Cursor

namespace Parser

variable {α β : Type} {p : Parser α} {x y z : List Piece} {P : α → Prop} {kind : TokenKind}
  {text : Text}

/-- In front of the pieces `x` the parser succeeds, and it leaves the pieces `y`. -/
def Reads (p : Parser α) (x y : List Piece) (P : α → Prop) : Prop :=
  ∀ c : Cursor, c.Sees x → ∃ a d, p c = .ok (a, d) ∧ P a ∧ d.Sees y

/-- In front of the pieces the parser fails. -/
def RejectsAt (p : Parser α) (x : List Piece) : Prop := ∀ c : Cursor, c.Sees x → Rejects p c

lemma Reads.mono {Q : α → Prop} (h : Reads p x y P) (hPQ : ∀ a, P a → Q a) : Reads p x y Q := by
  intro c hc
  obtain ⟨a, d, hp, ha, hd⟩ := h c hc
  exact ⟨a, d, hp, hPQ a ha, hd⟩

lemma Reads.bind {f : α → Parser β} {Q : β → Prop} (h : Reads p x y P)
    (hf : ∀ a, P a → Reads (f a) y z Q) : Reads (p >>= f) x z Q := by
  intro c hc
  obtain ⟨a, d, hp, ha, hd⟩ := h c hc
  obtain ⟨b, e, hb, hQ, he⟩ := hf a ha d hd
  exact ⟨b, e, by rw [bind_of_ok hp, hb], hQ, he⟩

lemma Reads.rejects {f : α → Parser β} (h : Reads p x y P)
    (hf : ∀ a, P a → RejectsAt (f a) y) : RejectsAt (p >>= f) x := by
  intro c hc
  obtain ⟨a, d, hp, ha, hd⟩ := h c hc
  exact rejects_bind_of_ok hp (hf a ha d hd)

lemma reads_pure {a : α} (h : P a) : Reads (pure a) x x P := fun c hc => ⟨a, c, rfl, h, hc⟩

section Primitives

lemma reads_here : Reads here x x fun _ => True := fun _ hc => ⟨_, _, rfl, trivial, hc.settle⟩

lemma reads_lastStop : Reads lastStop x x fun _ => True := fun c hc => ⟨_, c, rfl, trivial, hc⟩

lemma reads_peekKind? : Reads peekKind? x x (· = headKind? x) :=
  fun _ hc => ⟨_, _, rfl, hc.peekKind?, hc.settle⟩

lemma reads_skim :
    Reads (skim kind) ((kind, text) :: x) x fun o => ∃ t, o = some t ∧ t.text = text := by
  intro c hc
  obtain ⟨t, ts, hrest, hkind, htext, hsees⟩ := hc.head
  refine ⟨some t, _, ?_, ⟨t, rfl, htext⟩, hsees⟩
  change Except.ok (c.skim kind) = _
  rw [Cursor.skim_of_kind hrest hkind]

lemma reads_take (message : Text) :
    Reads (take kind message) ((kind, text) :: x) x fun t => t.text = text := by
  intro c hc
  obtain ⟨t, ts, hrest, hkind, htext, hsees⟩ := hc.head
  exact ⟨t, _, by rw [take_run, Cursor.skim_of_kind hrest hkind], htext, hsees⟩

lemma reads_skip : Reads (skip kind) ((kind, text) :: x) x (· = true) := by
  intro c hc
  obtain ⟨t, ts, hrest, hkind, htext, hsees⟩ := hc.head
  refine ⟨true, _, ?_, rfl, hsees⟩
  change Except.ok ((c.skim kind).1.isSome, (c.skim kind).2) = _
  rw [Cursor.skim_of_kind hrest hkind]
  rfl

lemma reads_skipNone (h : headKind? x ≠ some kind) : Reads (skip kind) x x (· = false) := by
  intro c hc
  exact ⟨false, _, skip_of_peekKind (by rwa [hc.peekKind?]), rfl, hc.settle⟩

lemma reads_skimNone (h : headKind? x ≠ some kind) : Reads (skim kind) x x (· = none) := by
  intro c hc
  exact ⟨none, c.settle, congrArg Except.ok (skim_of_peekKind (by rwa [hc.peekKind?])), rfl, hc.settle⟩

lemma reads_peek? : Reads peek? x x fun o => (o.map fun t => (t.kind, t.text)) = x.head? := by
  intro c hc
  refine ⟨c.peek?, c.settle, rfl, ?_, hc.settle⟩
  cases x with
  | nil =>
    have hkind := hc.peekKind?
    rw [Cursor.peekKind?] at hkind
    rw [Option.map_eq_none_iff.1 hkind]
    rfl
  | cons piece x =>
    obtain ⟨t, ts, hrest, hkind, htext, -⟩ := hc.head
    rw [Cursor.peek?, hrest, List.head?_cons, List.head?_cons, Option.map_some, hkind, htext]

lemma rejectsAt_take (h : headKind? x ≠ some kind) (message : Text) :
    RejectsAt (take kind message) x :=
  fun c hc => rejects_take (by rwa [hc.peekKind?]) message

lemma RejectsAt.bind (h : RejectsAt p x) (f : α → Parser β) : RejectsAt (p >>= f) x :=
  fun c hc => (h c hc).bind f

lemma startsNone_of_sees {c : Cursor} {kinds : List TokenKind} (hc : c.Sees x)
    (h : ∀ kind ∈ kinds, headKind? x ≠ some kind) : c.StartsNone kinds :=
  fun kind hk => by rw [hc.peekKind?]; exact h kind hk

lemma reads_firstOf {ps qs : List (Parser α)} (hps : ∀ q ∈ ps, RejectsAt q x) (h : Reads p x y P) :
    Reads (firstOf (ps ++ p :: qs)) x y P := by
  intro c hc
  obtain ⟨a, d, hp, ha, hd⟩ := h c hc
  exact ⟨a, d, firstOf_of_ok (fun q hq => hps q hq c hc) hp, ha, hd⟩

lemma reads_firstAlternative {qs : List (Parser α)} (h : Reads p x y P) :
    Reads (firstOf (p :: qs)) x y P := by
  have hnone : ∀ q ∈ ([] : List (Parser α)), RejectsAt q x := by simp
  exact reads_firstOf hnone h

lemma reads_member (h : Reads p x y P) : Reads (member p) x y fun o => ∃ a, o = some a ∧ P a :=
  h.bind fun a ha => reads_pure ⟨a, rfl, ha⟩

end Primitives

section Lists

variable {atEnd : Parser Bool} {member : Parser (Option α)} {others : Parser (List α)}

lemma reads_membersEnd (h : Reads atEnd x y (· = true)) :
    Reads (membersStep atEnd member others) x y (· = []) := by
  refine h.bind fun ended hended => ?_
  subst hended
  exact reads_pure rfl

lemma reads_membersStep {Q : Option α → Prop} {R : List α → Prop} (h : Reads atEnd x x (· = false))
    (hm : Reads member x y Q) (ho : Reads others y z R) :
    Reads (membersStep atEnd member others) x z
      fun xs => ∃ found rest, Q found ∧ R rest ∧ xs = found.toList ++ rest := by
  refine h.bind fun ended hended => ?_
  subst hended
  refine hm.bind fun found hfound => ho.bind fun rest hrest => reads_pure ?_
  exact ⟨found, rest, hfound, hrest, rfl⟩

end Lists

section Loops

variable {list : Parser (List Node)} {closing : Symbol} {Q : List Node → Prop}

lemma rejectsAt_comma (h : headKind? x ≠ some (.symbol .comma)) :
    RejectsAt (comma : Parser (Option Node)) x := (rejectsAt_take h _).bind _

lemma rejectsAt_comment (h : headKind? x ≠ some .comment) : RejectsAt (member comment) x :=
  ((rejectsAt_take h _).bind _).bind _

lemma rejectsAt_newline (h : headKind? x ≠ some .newline) :
    RejectsAt (newline : Parser (Option Node)) x := (rejectsAt_take h _).bind _

lemma reads_loopStep {alternatives : List (Parser (Option Node))}
    (h : IsLoop list (skip (.symbol closing)) alternatives) {P : Option Node → Prop}
    (ps : List (Parser (Option Node))) {p : Parser (Option Node)} {qs : List (Parser (Option Node))}
    (hsplit : alternatives = ps ++ p :: qs) (hx : headKind? x ≠ some (.symbol closing))
    (hps : ∀ q ∈ ps, RejectsAt q x) (hp : Reads p x y P) (hrest : Reads list y z Q) :
    Reads list x z fun nodes => ∃ found rest, P found ∧ Q rest ∧ nodes = found.toList ++ rest := by
  rw [h.until_eq, hsplit]
  exact reads_membersStep (reads_skipNone hx) (reads_firstOf hps hp) hrest

lemma reads_loopMember {alternatives : List (Parser (Option Node))}
    (h : IsLoop list (skip (.symbol closing)) alternatives) {P : Node → Prop}
    (ps : List (Parser (Option Node))) {p : Parser Node} {qs : List (Parser (Option Node))}
    (hsplit : alternatives = ps ++ member p :: qs) (hx : headKind? x ≠ some (.symbol closing))
    (hps : ∀ q ∈ ps, RejectsAt q x) (hp : Reads p x y P) (hrest : Reads list y z Q) :
    Reads list x z fun nodes => ∃ n rest, nodes = n :: rest ∧ P n ∧ Q rest := by
  refine (reads_loopStep h ps hsplit hx hps (reads_member hp) hrest).mono ?_
  rintro _ ⟨_, rest, ⟨n, rfl, hn⟩, hrest, rfl⟩
  exact ⟨n, rest, rfl, hn, hrest⟩

/-- A list up to a closing symbol, with commas, line ends and comments between its members. -/
structure LineLoop (list : Parser (List Node)) (closing : Symbol) : Prop where
  ending : ∀ y, Reads list (symbolPiece closing :: y) y (· = [])
  comma : ∀ {x y P}, Reads list x y P → Reads list (symbolPiece .comma :: x) y P
  line : ∀ {x y P}, Reads list x y P → Reads list (linePiece :: x) y P
  comment : ∀ {x y P} (text : Text), Reads list x y P → Reads list (commentPiece text :: x) y
    fun nodes => ∃ start rest, nodes = .comment start text :: rest ∧ P rest

lemma lineLoop_of_isLoop (before : List (Parser (Option Node))) {after : List (Parser (Option Node))}
    (hclosing : closing ≠ .comma) (h : IsLoop list (skip (.symbol closing))
      (Parser.comma :: member Parser.comment :: (before ++ newline :: after)))
    (hbefore : ∀ q ∈ before, ∀ x, RejectsAt q (linePiece :: x)) : LineLoop list closing where
  ending y := by
    rw [h.until_eq]
    exact reads_membersEnd reads_skip
  comma {x y P} hx := by
    have hcomma : Reads (Parser.comma : Parser (Option Node)) (symbolPiece .comma :: x) x (· = none) :=
      (reads_take _).bind fun _ _ => reads_pure rfl
    refine (reads_loopStep h [] rfl ?_ (by simp) hcomma hx).mono ?_
    · simpa [headKind?, symbolPiece] using hclosing.symm
    · rintro _ ⟨_, rest, rfl, hrest, rfl⟩
      exact hrest
  line {x y P} hx := by
    have hline : Reads (newline : Parser (Option Node)) (linePiece :: x) x (· = none) :=
      (reads_take _).bind fun _ _ => reads_pure rfl
    have hhead : headKind? (linePiece :: x) = some .newline := rfl
    refine (reads_loopStep h (Parser.comma :: member Parser.comment :: before) rfl (by simp [hhead]) ?_
      hline hx).mono ?_
    · simp only [List.forall_mem_cons]
      exact ⟨rejectsAt_comma (by simp [hhead]), rejectsAt_comment (by simp [hhead]),
        fun q hq => hbefore q hq x⟩
    · rintro _ ⟨_, rest, rfl, hrest, rfl⟩
      exact hrest
  comment {x y P} text hx := by
    have hcomment : Reads (member Parser.comment) (commentPiece text :: x) x
        fun o => ∃ n, o = some n ∧ ∃ start, n = .comment start text :=
      reads_member ((reads_take _).bind fun token htoken => reads_pure ⟨_, by rw [htoken]⟩)
    have hhead : headKind? (commentPiece text :: x) = some .comment := rfl
    refine (reads_loopStep h [Parser.comma] rfl (by simp [hhead]) ?_ hcomment hx).mono ?_
    · simp only [List.forall_mem_cons]
      exact ⟨rejectsAt_comma (by simp [hhead]), by simp⟩
    · rintro _ ⟨_, rest, ⟨_, rfl, start, rfl⟩, hrest, rfl⟩
      exact ⟨start, rest, rfl, hrest⟩

lemma LineLoop.gap (h : LineLoop list closing) (hx : Reads list x y Q) (gap : Gap) :
    Reads list (gap.pieces ++ x) y Q := by
  cases gap with
  | sameLine => exact hx
  | nextLine => exact h.line hx
  | blankLine => exact h.line (h.line hx)

end Loops

section Names

lemma reads_moreNames (hy : headKind? y ≠ some (.symbol .period)) (words : List Text) :
    Reads moreNames (words.flatMap (fun word => [symbolPiece .period, wordPiece word]) ++ y) y
      (· = words) := by
  induction words with
  | nil =>
    rw [moreNames_eq]
    refine (reads_skipNone hy).bind fun b hb => ?_
    subst hb
    exact reads_pure rfl
  | cons word words ih =>
    rw [moreNames_eq]
    refine reads_skip.bind fun b hb => ?_
    subst hb
    refine (reads_take _).bind fun t ht => ih.bind fun names hnames => reads_pure ?_
    rw [ht, hnames]

lemma joinedWords_cons (separator : Symbol) (word : Text) (words : List Text) :
    joinedWords separator (word :: words) =
      wordPiece word :: words.flatMap fun word => [symbolPiece separator, wordPiece word] := by
  induction words generalizing word with
  | nil => rfl
  | cons next words ih =>
    have htail := ih next
    rw [joinedWords, DpLang.joined] at htail ⊢
    simp only [List.map_cons, List.intersperse_cons_cons, List.flatten_cons] at htail ⊢
    rw [htail]
    rfl

lemma reads_selectorOnly {names : List Text} (hnames : names ≠ [])
    (hy : headKind? y ≠ some (.symbol .period)) :
    Reads selectorOnly (joinedWords .period names ++ y) y fun s => s.names = names := by
  cases names with
  | nil => exact absurd rfl hnames
  | cons name names =>
    rw [joinedWords_cons]
    refine reads_here.bind fun start _ => (reads_take _).bind fun word hword => ?_
    refine (reads_moreNames hy names).bind fun others hothers => ?_
    refine reads_lastStop.bind fun stop _ => reads_pure ?_
    rw [hword, hothers]

end Names

section Operators

variable {multiline : Bool} {op : BinaryOp}

lemma ofSymbol?_symbol (op : BinaryOp) : BinaryOp.ofSymbol? op.symbol = some op := by
  cases op <;> decide

lemma reads_infixOperator? :
    Reads infixOperator? ((.symbol op.symbol, text) :: x) x (· = some op) := by
  refine reads_peekKind?.bind fun kind hkind => ?_
  rw [hkind, headKind?_cons]
  dsimp only
  rw [ofSymbol?_symbol]
  exact reads_skip.bind fun _ _ => reads_pure rfl

def StartsNoOperator (x : List Piece) : Prop := ∀ op : BinaryOp, headKind? x ≠ some (.symbol op.symbol)

lemma symbol_of_binary {s : Symbol} (h : BinaryOp.ofSymbol? s = some op) : op.symbol = s := by
  simpa using List.find?_some h

lemma reads_noInfixOperator (h : StartsNoOperator x) : Reads infixOperator? x x (· = none) := by
  refine reads_peekKind?.bind fun kind hkind => ?_
  subst hkind
  cases hx : headKind? x with
  | none => exact reads_pure rfl
  | some kind =>
    match kind with
    | .symbol s =>
      cases hop : BinaryOp.ofSymbol? s with
      | none => simp only [hop]; exact reads_pure rfl
      | some op => exact absurd (by rw [hx, symbol_of_binary hop]) (h op)
    | .space | .newline | .comment | .keyword _ | .word | .integer | .character | .string =>
      exact reads_pure rfl

lemma reads_skipNewlinesIf (h : multiline = true → headKind? x ≠ some .newline) :
    Reads (skipNewlinesIf multiline) x x fun _ => True := by
  cases multiline with
  | false => exact reads_pure trivial
  | true =>
    intro c hc
    refine ⟨(), c.settle, ?_, trivial, hc.settle⟩
    change skipNewlinesWithin (c.rest.length + 1) c = _
    rw [skipNewlinesWithin, bind_of_ok (skip_of_peekKind (by rw [hc.peekKind?]; exact h rfl))]
    rfl

lemma reads_lineThenInfix (op : BinaryOp) :
    Reads (skipNewlinesIf multiline >>= fun _ => infixOperator?) ((.symbol op.symbol, text) :: x) x
      (· = some op) :=
  (reads_skipNewlinesIf fun _ => by simp [headKind?]).bind fun _ _ => reads_infixOperator?

lemma reads_tightOperator? (hop : op.precedence = BinaryOp.maxPrecedence) :
    Reads (tightOperator? multiline) ((.symbol op.symbol, text) :: x) x (· = some op) := by
  intro c hc
  obtain ⟨o, d, ho, rfl, hd⟩ := reads_lineThenInfix op c hc
  refine ⟨some op, d, ?_, rfl, hd⟩
  rw [tightOperator?_run, ho]
  exact if_pos hop

/-- Any other operator is left, with the line ends in front of it. -/
lemma reads_noTightOperator (hline : multiline = true → headKind? x ≠ some .newline)
    (h : ∀ op : BinaryOp, op.precedence = BinaryOp.maxPrecedence →
      headKind? x ≠ some (.symbol op.symbol)) :
    Reads (tightOperator? multiline) x x (· = none) := by
  intro c hc
  refine ⟨none, c, ?_, rfl, hc⟩
  rw [tightOperator?_run]
  by_cases hx : StartsNoOperator x
  · have hrun := (reads_skipNewlinesIf hline).bind fun _ _ => reads_noInfixOperator hx
    obtain ⟨o, d, ho, rfl, hd⟩ := hrun c hc
    rw [ho]
  · simp only [StartsNoOperator, not_forall, not_not] at hx
    obtain ⟨op, hop⟩ := hx
    cases x with
    | nil => cases hop
    | cons piece x =>
      obtain ⟨kind, text⟩ := piece
      obtain rfl : kind = .symbol op.symbol := Option.some.inj hop
      obtain ⟨o, d, ho, rfl, hd⟩ := reads_lineThenInfix op c hc
      rw [ho]
      exact if_neg fun hmax => h op hmax rfl

end Operators

end Parser

end DpLang
