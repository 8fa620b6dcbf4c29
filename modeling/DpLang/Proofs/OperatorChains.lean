import DpLang.Proofs.Derivation
import DpLang.Proofs.ReadBackExpression

/-!
# Chains of operators

Operands of one token each, joined by operators: the operands between two operators below the highest
precedence are joined first, from the left, and then what has been joined so is joined from the left.
An expression is refused just when two of the lower operators differ in precedence.
-/

namespace DpLang

section Chains

/-- A word or an integer. -/
def Token.IsOperand (t : Token) : Prop := t.kind = .word ∨ t.kind = .integer

/-- What an operand is read as in front of other tokens. -/
def Token.leaf (t : Token) (others : List Token) : Node :=
  if t.kind = .integer then .literal t.start .integer t.text (placeOf t.stop others)
  else .selector ⟨t.start, [t.text], placeOf t.stop others⟩

/-- An operator and the operand behind it. -/
structure Link where
  op : BinaryOp
  operator : Token
  operand : Token
  operator_kind : operator.kind = .symbol op.symbol
  operand_kind : operand.IsOperand

namespace Link

/-- The tokens of a chain behind its first operand. -/
def tokens (links : List Link) : List Token := links.flatMap fun link => [link.operator, link.operand]

/-- The operators of a chain with the nodes of their right operands, where `rest` follows the chain. -/
def leaves (rest : List Token) : List Link → List (BinaryOp × Node)
  | [] => []
  | link :: links => (link.op, link.operand.leaf (tokens links ++ rest)) :: leaves rest links

/-- The operator does not bind first. -/
def IsLow (link : Link) : Prop := link.op.precedence < BinaryOp.maxPrecedence

instance (link : Link) : Decidable link.IsLow := inferInstanceAs (Decidable (_ < _))

end Link

/-- Nodes joined from the left. -/
def Node.joinAll (first : Node) (others : List (BinaryOp × Node)) : Node :=
  others.foldl (fun left (op, right) => .binary left op right right.stop) first

/-- Cuts a chain in front of each operator below the highest precedence: the links of the first run,
and the first link of each further run with the other links of that run. -/
def tiers : List (BinaryOp × Node) →
    List (BinaryOp × Node) × List ((BinaryOp × Node) × List (BinaryOp × Node))
  | [] => ([], [])
  | link :: links =>
    if link.1.precedence = BinaryOp.maxPrecedence then (link :: (tiers links).1, (tiers links).2)
    else ([], (link, (tiers links).1) :: (tiers links).2)

def Node.joinTiers (first : Node) (others : List (BinaryOp × Node)) : Node :=
  (first.joinAll (tiers others).1).joinAll
    ((tiers others).2.map fun ((op, right), run) => (op, right.joinAll run))

end Chains

section Spots

/-- The cursor stands in front of tokens, blanks apart, and behind what stops at a place. -/
structure Cursor.At (c : Cursor) (tokens : List Token) (last : Position) : Prop where
  solid : c.solid = tokens
  last : c.last = last

namespace Cursor.At

variable {c : Cursor} {t : Token} {ts : List Token} {last : Position}

lemma settle (h : c.At ts last) : c.settle.At ts last := ⟨solid_settle.trans h.solid, h.last⟩

lemma peekKind? (h : c.At ts last) : c.peekKind? = ts.head?.map Token.kind := by
  rw [Cursor.peekKind?, peek?_eq, h.solid]

lemma skim (h : c.At (t :: ts) last) :
    ∃ d, c.skim t.kind = (some t, d) ∧ d.At ts (placeOf t.stop ts) := by
  cases hrest : c.settle.rest with
  | nil =>
    have hsolid := h.settle.solid
    rw [Cursor.solid, hrest] at hsolid
    cases hsolid
  | cons t' rest =>
    have hbehind := solid_behind hrest
    rw [h.solid] at hbehind
    obtain ⟨rfl, hts⟩ := List.cons.inj hbehind
    have hhead : ts.head? = (rest.dropWhile Token.isSpace).head? := by
      rw [hts, Cursor.solid, behind_rest, head?_filter, List.dropWhile_idempotent]
    refine ⟨c.settle.behind t rest, skim_of_kind hrest rfl, hts.symm, ?_⟩
    rw [behind_last, placeOf, hhead]

end Cursor.At

end Spots

namespace Parser

section Exact

variable {α β : Type} {p : Parser α} {a : α} {t : Token} {ts us vs : List Token}
  {last last' last'' : Position}

/-- In front of the tokens `ts` the parser gives `a` and leaves the tokens `us`. -/
def Yields (p : Parser α) (ts : List Token) (last : Position) (a : α) (us : List Token)
    (last' : Position) : Prop :=
  ∀ c : Cursor, c.At ts last → ∃ d, p c = .ok (a, d) ∧ d.At us last'

/-- In front of the tokens the parser fails with a fault at a place. -/
def FailsWith (p : Parser α) (ts : List Token) (last place : Position) (fault : Fault) : Prop :=
  ∀ c : Cursor, c.At ts last → p c = .error (.rejected (.ofFault place fault))

lemma Yields.bind {f : α → Parser β} {b : β} (h : Yields p ts last a us last')
    (hf : Yields (f a) us last' b vs last'') : Yields (p >>= f) ts last b vs last'' := by
  intro c hc
  obtain ⟨d, hp, hd⟩ := h c hc
  rw [bind_of_ok hp]
  exact hf d hd

lemma Yields.fails {f : α → Parser β} {place : Position} {fault : Fault}
    (h : Yields p ts last a us last') (hf : FailsWith (f a) us last' place fault) :
    FailsWith (p >>= f) ts last place fault := by
  intro c hc
  obtain ⟨d, hp, hd⟩ := h c hc
  rw [bind_of_ok hp]
  exact hf d hd

lemma yields_pure (a : α) : Yields (pure a) ts last a ts last := fun c hc => ⟨c, rfl, hc⟩

lemma yields_lastStop : Yields lastStop ts last last ts last :=
  fun c hc => ⟨c, by rw [← hc.last]; rfl, hc⟩

lemma yields_here : Yields here (t :: ts) last t.start (t :: ts) last := by
  intro c hc
  have hposition : c.position = t.start := by
    rw [Cursor.position, Cursor.peek?_eq, hc.solid]
    rfl
  exact ⟨c.settle, by rw [← hposition]; rfl, hc.settle⟩

lemma yields_peekKind? : Yields peekKind? ts last (ts.head?.map Token.kind) ts last :=
  fun c hc => ⟨c.settle, by rw [← hc.peekKind?]; rfl, hc.settle⟩

lemma yields_take {kind : TokenKind} (ht : t.kind = kind) (message : Text) :
    Yields (take kind message) (t :: ts) last t ts (placeOf t.stop ts) := by
  intro c hc
  obtain ⟨d, hskim, hd⟩ := hc.skim
  rw [ht] at hskim
  exact ⟨d, by rw [take_run, hskim], hd⟩

lemma yields_skip {kind : TokenKind} (ht : t.kind = kind) :
    Yields (skip kind) (t :: ts) last true ts (placeOf t.stop ts) := by
  intro c hc
  obtain ⟨d, hskim, hd⟩ := hc.skim
  rw [ht] at hskim
  refine ⟨d, ?_, hd⟩
  change Except.ok ((c.skim kind).1.isSome, (c.skim kind).2) = _
  rw [hskim]
  rfl

lemma yields_skipNone {kind : TokenKind} (h : ts.head?.map Token.kind ≠ some kind) :
    Yields (skip kind) ts last false ts last :=
  fun c hc => ⟨c.settle, skip_of_peekKind (by rwa [hc.peekKind?]), hc.settle⟩

lemma yields_infixOperator? {op : BinaryOp} (ht : t.kind = .symbol op.symbol) :
    Yields infixOperator? (t :: ts) last (some op) ts (placeOf t.stop ts) := by
  refine yields_peekKind?.bind ?_
  rw [List.head?_cons, Option.map_some, ht]
  dsimp only
  rw [ofSymbol?_symbol]
  exact (yields_skip ht).bind (yields_pure _)

lemma yields_noInfixOperator (h : ∀ op : BinaryOp, ts.head?.map Token.kind ≠ some (.symbol op.symbol)) :
    Yields infixOperator? ts last none ts last := by
  refine yields_peekKind?.bind ?_
  split
  · next s hs =>
    cases hop : BinaryOp.ofSymbol? s with
    | none => exact yields_pure none
    | some op => exact absurd (by rw [hs, symbol_of_binary hop]) (h op)
  · exact yields_pure none

lemma tightOperator?_single (c : Cursor) :
    tightOperator? false c =
      match infixOperator? c with
      | .ok (some op, next) =>
        if op.precedence = BinaryOp.maxPrecedence then .ok (some op, next) else .ok (none, c)
      | .ok (none, _) => .ok (none, c)
      | .error e => .error e :=
  tightOperator?_run false c

lemma yields_tightOperator? {op : BinaryOp} (ht : t.kind = .symbol op.symbol)
    (hop : op.precedence = BinaryOp.maxPrecedence) :
    Yields (tightOperator? false) (t :: ts) last (some op) ts (placeOf t.stop ts) := by
  intro c hc
  obtain ⟨d, hd, hat⟩ := yields_infixOperator? ht c hc
  refine ⟨d, ?_, hat⟩
  rw [tightOperator?_single, hd]
  exact if_pos hop

lemma yields_lowOperator {op : BinaryOp} (ht : t.kind = .symbol op.symbol)
    (hop : op.precedence ≠ BinaryOp.maxPrecedence) :
    Yields (tightOperator? false) (t :: ts) last none (t :: ts) last := by
  intro c hc
  obtain ⟨d, hd, -⟩ := yields_infixOperator? ht c hc
  refine ⟨c, ?_, hc⟩
  rw [tightOperator?_single, hd]
  exact if_neg hop

lemma yields_noTightOperator
    (h : ∀ op : BinaryOp, ts.head?.map Token.kind ≠ some (.symbol op.symbol)) :
    Yields (tightOperator? false) ts last none ts last := by
  intro c hc
  obtain ⟨d, hd, -⟩ := yields_noInfixOperator h c hc
  refine ⟨c, ?_, hc⟩
  rw [tightOperator?_single, hd]

end Exact

section Operands

variable {t : Token} {ts : List Token} {last : Position}

/-- What follows cannot belong to an operand of one token. -/
def EndsLeaf (ts : List Token) : Prop :=
  ∀ kind ∈ [TokenKind.symbol .period, .symbol .colons, .symbol .parenLeft, .symbol .bracketLeft],
    ts.head?.map Token.kind ≠ some kind

lemma rejects_other_atoms {kind : TokenKind} (ht : t.kind = kind) {entry : List TokenKind × Parser Node}
    (hentry : entry ∈ atomTable atomic) (hkind : kind ∉ entry.1) {c : Cursor} (hc : c.At (t :: ts) last) :
    Rejects entry.2 c := by
  refine rejects_atomTable entry hentry c fun head hhead heq => hkind ?_
  rw [hc.peekKind?, List.head?_cons, Option.map_some, ht] at heq
  rwa [Option.some.inj heq]

lemma yields_integer (ht : t.kind = .integer) :
    Yields atomic (t :: ts) last (.literal t.start .integer t.text (placeOf t.stop ts)) ts
      (placeOf t.stop ts) := by
  intro c hc
  obtain ⟨d, hp, hd⟩ := ((yields_take ht _).bind (yields_lastStop.bind (yields_pure _)) :
    Yields (literal .integer .integer "integer literal expected") (t :: ts) last _ _ _) c hc
  refine ⟨d, atomic_of_ok 6 rfl (fun entry hentry => ?_) hp, hd⟩
  refine rejects_other_atoms ht (List.mem_of_mem_take hentry) ?_ hc
  have hheads : ∀ heads ∈ atomHeads.take 6, TokenKind.integer ∉ heads := by decide
  exact hheads _ (by rw [atomHeads, ← List.map_take]; exact List.mem_map_of_mem hentry)

lemma yields_selectorOnly (ht : t.kind = .word) (hts : EndsLeaf ts) :
    Yields selectorOnly (t :: ts) last ⟨t.start, [t.text], placeOf t.stop ts⟩ ts (placeOf t.stop ts) := by
  have hnames : Yields moreNames ts (placeOf t.stop ts) [] ts (placeOf t.stop ts) := by
    rw [moreNames_eq]
    exact (yields_skipNone (hts _ (by simp))).bind (yields_pure [])
  refine yields_here.bind ((yields_take ht _).bind (hnames.bind ?_))
  exact yields_lastStop.bind (yields_pure _)

lemma rejects_longer_atom {α : Type} (ht : t.kind = .word) (hts : EndsLeaf ts) {kind : TokenKind}
    {message : Text} (hkind : ts.head?.map Token.kind ≠ some kind) (f : Selector → Token → Parser α)
    {c : Cursor} (hc : c.At (t :: ts) last) :
    Rejects (selectorOnly >>= fun name => take kind message >>= f name) c := by
  obtain ⟨d, hp, hd⟩ := yields_selectorOnly ht hts c hc
  exact rejects_bind_of_ok hp ((rejects_take (by rwa [hd.peekKind?]) message).bind _)

lemma yields_word (ht : t.kind = .word) (hts : EndsLeaf ts) :
    Yields atomic (t :: ts) last (.selector ⟨t.start, [t.text], placeOf t.stop ts⟩) ts
      (placeOf t.stop ts) := by
  have hselector : Yields selector (t :: ts) last (.selector ⟨t.start, [t.text], placeOf t.stop ts⟩) ts
      (placeOf t.stop ts) := by
    refine (yields_selectorOnly ht hts).bind (yields_peekKind?.bind ?_)
    split
    · next heq => exact absurd heq (hts _ (by simp))
    · next heq => exact absurd heq (hts _ (by simp))
    · next heq => exact absurd heq (hts _ (by simp))
    · exact yields_pure _
  intro c hc
  obtain ⟨d, hp, hd⟩ := hselector c hc
  have hcall : Rejects (callOf atomic) c := rejects_longer_atom ht hts (hts _ (by simp)) _ hc
  have hindex : Rejects (indexOf atomic) c := rejects_longer_atom ht hts (hts _ (by simp)) _ hc
  have hskip : ∀ entry ∈ (atomTable atomic).take 10, TokenKind.word ∉ entry.1 ∨ Rejects entry.2 c := by
    simp only [atomTable, List.take, List.forall_mem_cons]
    exact ⟨.inl (by decide), .inr hcall, .inl (by decide), .inl (by decide), .inl (by decide),
      .inr hindex, .inl (by decide), .inl (by decide), .inl (by decide), .inl (by decide), by simp⟩
  refine ⟨d, atomic_of_ok 10 rfl (fun entry hentry => ?_) hp, hd⟩
  rcases hskip entry hentry with hkind | hrejects
  · exact rejects_other_atoms ht (List.mem_of_mem_take hentry) hkind hc
  · exact hrejects

lemma yields_leaf (ht : t.IsOperand) (hts : EndsLeaf ts) :
    Yields atomic (t :: ts) last (t.leaf ts) ts (placeOf t.stop ts) := by
  rw [Token.leaf]
  obtain hword | hinteger := ht
  · rw [if_neg (by rw [hword]; nofun)]
    exact yields_word hword hts
  · rw [if_pos hinteger]
    exact yields_integer hinteger

end Operands

section Runs

variable {rest : List Token} {links : List Link}

/-- What follows cannot belong to a chain. -/
structure EndsChain (rest : List Token) : Prop where
  leaf : EndsLeaf rest
  operator : ∀ op : BinaryOp, rest.head?.map Token.kind ≠ some (.symbol op.symbol)

lemma endsLeaf_tokens (hrest : EndsChain rest) (links : List Link) :
    EndsLeaf (Link.tokens links ++ rest) := by
  cases links with
  | nil => exact hrest.leaf
  | cons link links =>
    intro kind hkind heq
    have hkind' : kind = .symbol link.op.symbol := by
      rw [← link.operator_kind]
      exact (Option.some.inj heq).symm
    rw [hkind'] at hkind
    revert hkind
    cases link.op <;> decide

lemma stop_leaf (t : Token) (ts : List Token) : (t.leaf ts).stop = placeOf t.stop ts := by
  rw [Token.leaf]
  split <;> rfl

/-- The links from the first operator below the highest precedence on. -/
def lowFrom (links : List Link) : List Link :=
  links.dropWhile fun link => link.op.precedence = BinaryOp.maxPrecedence

lemma yields_operandRest (hrest : EndsChain rest) (links : List Link) (left : Node) :
    Yields (operandRest false left) (Link.tokens links ++ rest) left.stop
      (left.joinAll (tiers (Link.leaves rest links)).1) (Link.tokens (lowFrom links) ++ rest)
      (left.joinAll (tiers (Link.leaves rest links)).1).stop := by
  induction links generalizing left with
  | nil =>
    rw [operandRest_eq]
    exact (yields_noTightOperator hrest.operator).bind (yields_pure left)
  | cons link links ih =>
    rw [operandRest_eq, Link.leaves, tiers]
    by_cases hop : link.op.precedence = BinaryOp.maxPrecedence
    · rw [if_pos hop, lowFrom, List.dropWhile_cons_of_pos (by simpa using hop)]
      refine (yields_tightOperator? link.operator_kind hop).bind ?_
      refine (yields_pure ()).bind ((yields_leaf link.operand_kind (endsLeaf_tokens hrest links)).bind ?_)
      refine yields_lastStop.bind ?_
      simp only [← stop_leaf]
      exact ih _
    · rw [if_neg hop, lowFrom, List.dropWhile_cons_of_neg (by simpa using hop)]
      exact (yields_lowOperator link.operator_kind hop).bind (yields_pure left)

/-- The operand that starts with a token, up to the first operator below the highest precedence. -/
def firstRun (t : Token) (links : List Link) (rest : List Token) : Node :=
  (t.leaf (Link.tokens links ++ rest)).joinAll (tiers (Link.leaves rest links)).1

lemma yields_operand (hrest : EndsChain rest) (links : List Link) {t : Token} (ht : t.IsOperand)
    (last : Position) :
    Yields (operand false) (t :: (Link.tokens links ++ rest)) last (firstRun t links rest)
      (Link.tokens (lowFrom links) ++ rest) (firstRun t links rest).stop := by
  rw [operand_eq]
  refine (yields_leaf ht (endsLeaf_tokens hrest links)).bind ?_
  rw [← stop_leaf]
  exact yields_operandRest hrest links _

lemma tiers_snd (rest : List Token) (links : List Link) :
    (tiers (Link.leaves rest links)).2 =
      match lowFrom links with
      | [] => []
      | link :: more =>
        ((link.op, link.operand.leaf (Link.tokens more ++ rest)), (tiers (Link.leaves rest more)).1) ::
          (tiers (Link.leaves rest more)).2 := by
  induction links with
  | nil => rfl
  | cons link links ih =>
    rw [Link.leaves, tiers]
    by_cases hop : link.op.precedence = BinaryOp.maxPrecedence
    · rw [if_pos hop, lowFrom, List.dropWhile_cons_of_pos (by simpa using hop)]
      exact ih
    · rw [if_neg hop, lowFrom, List.dropWhile_cons_of_neg (by simpa using hop)]

/-- The first link below the highest precedence that differs in it from the one before. The last one
before the links is of precedence `before`, if there is one. -/
def clash (before : Option Nat) : List Link → Option Link
  | [] => none
  | link :: links =>
    if link.op.precedence = BinaryOp.maxPrecedence then clash before links
    else if before.any (link.op.precedence ≠ ·) then some link
    else clash (some link.op.precedence) links

lemma clash_eq (before : Option Nat) (links : List Link) :
    clash before links =
      match lowFrom links with
      | [] => none
      | link :: more =>
        if before.any (link.op.precedence ≠ ·) then some link
        else clash (some link.op.precedence) more := by
  induction links with
  | nil => rfl
  | cons link links ih =>
    rw [clash]
    by_cases hop : link.op.precedence = BinaryOp.maxPrecedence
    · rw [if_pos hop, lowFrom, List.dropWhile_cons_of_pos (by simpa using hop)]
      exact ih
    · rw [if_neg hop, lowFrom, List.dropWhile_cons_of_neg (by simpa using hop)]

/-- A chain is taken apart at its operators below the highest precedence. -/
lemma low_induction {motive : List Link → Prop} (last : ∀ links, lowFrom links = [] → motive links)
    (next : ∀ links link more, lowFrom links = link :: more → motive more → motive links)
    (links : List Link) : motive links := by
  induction hn : links.length using Nat.strong_induction_on generalizing links with
  | h n ih =>
    cases hlow : lowFrom links with
    | nil => exact last links hlow
    | cons link more =>
      have hlength : (link :: more).length ≤ links.length := by
        rw [← hlow]
        exact (List.dropWhile_sublist _).length_le
      rw [List.length_cons] at hlength
      exact next links link more hlow (ih more.length (by omega) more rfl)

/-- The operands from a token on, joined with what is before them. -/
def joinedFrom (before : Option (Node × BinaryOp)) (t : Token) (links : List Link) (rest : List Token) :
    Node :=
  (joined before (firstRun t links rest) (firstRun t links rest).stop).joinAll
    ((tiers (Link.leaves rest links)).2.map fun ((op, right), run) => (op, right.joinAll run))

lemma joinedFrom_of_nil {before : Option (Node × BinaryOp)} {t : Token} (h : lowFrom links = []) :
    joinedFrom before t links rest =
      joined before (firstRun t links rest) (firstRun t links rest).stop := by
  rw [joinedFrom, tiers_snd, h]
  rfl

lemma joinedFrom_of_cons {before : Option (Node × BinaryOp)} {t : Token} {link : Link} {more : List Link}
    (h : lowFrom links = link :: more) :
    joinedFrom before t links rest =
      joinedFrom (some (joined before (firstRun t links rest) (firstRun t links rest).stop, link.op))
        link.operand more rest := by
  rw [joinedFrom, tiers_snd, h]
  rfl

/-- How a chain ends, from an operand on. -/
def EndsAs (before : Option (Node × BinaryOp)) (t : Token) (links : List Link) (rest : List Token) : Prop :=
  ∀ last, match clash (before.map (·.2.precedence)) links with
    | none => ∃ last', Yields (chain false before) (t :: (Link.tokens links ++ rest)) last
        (joinedFrom before t links rest) rest last'
    | some link => FailsWith (chain false before) (t :: (Link.tokens links ++ rest)) last
        link.operand.start .mixedPrecedence

lemma mixes_eq (before : Option (Node × BinaryOp)) (op : BinaryOp) :
    mixes before op = (before.map (·.2.precedence)).any (op.precedence ≠ ·) := by
  cases before <;> rfl

/-- The chain is read operand by operand, and it is refused at the first operator that does not fit. -/
lemma endsAs_chain (hrest : EndsChain rest) (links : List Link) (before : Option (Node × BinaryOp))
    {t : Token} (ht : t.IsOperand) : EndsAs before t links rest := by
  induction links using low_induction generalizing before t with
  | last links hlow =>
    intro last
    rw [clash_eq, hlow]
    have hoperand := yields_operand hrest links ht last
    rw [hlow] at hoperand
    refine ⟨(firstRun t links rest).stop, ?_⟩
    rw [chain_eq, joinedFrom_of_nil hlow]
    refine (yields_pure ()).bind (hoperand.bind (yields_lastStop.bind ((yields_pure ()).bind ?_)))
    exact (yields_noInfixOperator hrest.operator).bind (yields_pure _)
  | next links link more hlow ih =>
    intro last
    rw [clash_eq, hlow]
    dsimp only
    have hoperand := yields_operand hrest links ht last
    rw [hlow] at hoperand
    have hoperator : Yields infixOperator? (Link.tokens (link :: more) ++ rest)
        (firstRun t links rest).stop (some link.op) (link.operand :: (Link.tokens more ++ rest))
        (placeOf link.operator.stop (link.operand :: (Link.tokens more ++ rest))) :=
      yields_infixOperator? link.operator_kind
    rw [chain_eq, ← mixes_eq]
    by_cases hmix : mixes before link.op = true
    · rw [if_pos hmix]
      refine (yields_pure ()).fails (hoperand.fails (yields_lastStop.fails ((yields_pure ()).fails ?_)))
      refine hoperator.fails ?_
      simp only [if_pos hmix]
      exact yields_here.fails fun c hc => rfl
    · rw [if_neg hmix]
      have hnext := ih (some (joined before (firstRun t links rest) (firstRun t links rest).stop, link.op))
        link.operand_kind (placeOf link.operator.stop (link.operand :: (Link.tokens more ++ rest)))
      rw [Option.map_some] at hnext
      cases hclash : clash (some link.op.precedence) more with
      | none =>
        rw [hclash] at hnext
        obtain ⟨last', hnext⟩ := hnext
        refine ⟨last', ?_⟩
        rw [joinedFrom_of_cons hlow]
        refine (yields_pure ()).bind (hoperand.bind (yields_lastStop.bind ((yields_pure ()).bind ?_)))
        refine hoperator.bind ?_
        simp only [if_neg hmix]
        exact hnext
      | some bad =>
        rw [hclash] at hnext
        refine (yields_pure ()).fails (hoperand.fails (yields_lastStop.fails ((yields_pure ()).fails ?_)))
        refine hoperator.fails ?_
        simp only [if_neg hmix]
        exact hnext

end Runs

section Tiers

variable {links : List Link}

lemma isLow_iff (link : Link) : link.IsLow ↔ link.op.precedence ≠ BinaryOp.maxPrecedence := by
  have hbound := (precedence_bounds link.op).2
  rw [Link.IsLow]
  omega

lemma clash_eq_none (before : Option Nat) (links : List Link) :
    clash before links = none ↔
      ∃ p, (∀ q ∈ before, q = p) ∧ ∀ link ∈ links, link.IsLow → link.op.precedence = p := by
  induction links generalizing before with
  | nil =>
    refine iff_of_true rfl ⟨before.getD 0, fun q hq => ?_, by simp⟩
    rw [Option.mem_def.1 hq, Option.getD_some]
  | cons link links ih =>
    rw [clash]
    by_cases hop : link.op.precedence = BinaryOp.maxPrecedence
    · rw [if_pos hop, ih]
      simp [isLow_iff, hop]
    · rw [if_neg hop]
      cases before with
      | none =>
        rw [Option.any_none, if_neg Bool.false_ne_true, ih]
        simp [isLow_iff, hop]
      | some q =>
        by_cases hq : link.op.precedence = q
        · rw [Option.any_some, if_neg (by simp [hq]), ih]
          simp [isLow_iff, hq]
        · rw [Option.any_some, if_pos (by simp [hq])]
          refine iff_of_false nofun ?_
          rintro ⟨p, hbefore, hlinks⟩
          exact hq ((hlinks link List.mem_cons_self ((isLow_iff link).2 hop)).trans (hbefore q rfl).symm)

/-- The link is the first one below the highest precedence that differs in precedence from those
before it. -/
def FirstClash (links : List Link) (bad : Link) : Prop :=
  ∃ front back p, links = front ++ bad :: back ∧ bad.IsLow ∧ bad.op.precedence ≠ p ∧
    (∃ link ∈ front, link.IsLow) ∧ ∀ link ∈ front, link.IsLow → link.op.precedence = p

lemma clash_eq_some {before : Option Nat} {bad : Link} (h : clash before links = some bad) :
    ∃ front back p, links = front ++ bad :: back ∧ bad.IsLow ∧ bad.op.precedence ≠ p ∧
      (∀ q ∈ before, q = p) ∧ (before = none → ∃ link ∈ front, link.IsLow) ∧
      ∀ link ∈ front, link.IsLow → link.op.precedence = p := by
  induction links generalizing before with
  | nil => cases h
  | cons link links ih =>
    rw [clash] at h
    by_cases hop : link.op.precedence = BinaryOp.maxPrecedence
    · rw [if_pos hop] at h
      obtain ⟨front, back, p, rfl, hlow, hne, hbefore, hnone, hfront⟩ := ih h
      refine ⟨link :: front, back, p, rfl, hlow, hne, hbefore, fun hb => ?_, ?_⟩
      · obtain ⟨other, hother, hlow'⟩ := hnone hb
        exact ⟨other, List.mem_cons_of_mem _ hother, hlow'⟩
      · simpa [isLow_iff, hop] using hfront
    · rw [if_neg hop] at h
      split at h
      · next hany =>
        obtain rfl := Option.some.inj h
        cases before with
        | none => cases hany
        | some q =>
          refine ⟨[], links, q, rfl, (isLow_iff link).2 hop, by simpa using hany, ?_, nofun, by simp⟩
          rintro _ ⟨⟩
          rfl
      · next hany =>
        obtain ⟨front, back, p, rfl, hlow, hne, hbefore, -, hfront⟩ := ih h
        have hp : link.op.precedence = p := hbefore _ rfl
        refine ⟨link :: front, back, p, rfl, hlow, hne, fun q hq => ?_, fun _ => ?_, ?_⟩
        · rw [Option.mem_def.1 hq, Option.any_some] at hany
          have hsame : link.op.precedence = q := by simpa using hany
          exact hsame.symm.trans hp
        · exact ⟨link, List.mem_cons_self, (isLow_iff link).2 hop⟩
        · simpa [hp] using hfront

/-- A chain is an expression just when its operators below the highest precedence are of one precedence.
It is then joined tier by tier. Otherwise the place of the fault is the operand behind the first such
operator that differs from those before it. -/
theorem expression_joins_tiers (c : Cursor) (first : Token) (links : List Link) (rest : List Token)
    (hfirst : first.IsOperand) (hc : c.solid = first :: (Link.tokens links ++ rest)) (hrest : EndsChain rest) :
    ((∃ result, expression false c = .ok result) ↔
      ∃ p, ∀ link ∈ links, link.IsLow → link.op.precedence = p) ∧
    (∀ n d, expression false c = .ok (n, d) →
      n = (first.leaf (Link.tokens links ++ rest)).joinTiers (Link.leaves rest links) ∧ d.solid = rest) ∧
    ∀ failure, expression false c = .error failure → ∃ bad, FirstClash links bad ∧
      failure = .rejected (.ofFault bad.operand.start .mixedPrecedence) := by
  have hends := endsAs_chain hrest links none hfirst c.last
  have huniform := clash_eq_none none links
  rw [Option.map_none] at hends
  rw [expression_eq]
  cases hclash : clash none links with
  | none =>
    rw [hclash] at hends huniform
    obtain ⟨last', hyields⟩ := hends
    obtain ⟨d, hd, hat⟩ := hyields c ⟨hc, rfl⟩
    rw [hd]
    refine ⟨iff_of_true ⟨_, rfl⟩ ?_, ?_, nofun⟩
    · obtain ⟨p, -, hp⟩ := huniform.1 rfl
      exact ⟨p, hp⟩
    · rintro n e heq
      obtain ⟨rfl, rfl⟩ := Prod.mk.inj (Except.ok.inj heq)
      exact ⟨rfl, hat.solid⟩
  | some bad =>
    rw [hclash] at hends huniform
    rw [hends c ⟨hc, rfl⟩]
    refine ⟨iff_of_false nofun ?_, nofun, ?_⟩
    · rintro ⟨p, hp⟩
      cases huniform.2 ⟨p, nofun, hp⟩
    · rintro failure heq
      obtain ⟨front, back, p, hlinks, hlow, hne, -, hnone, hfront⟩ := clash_eq_some hclash
      exact ⟨bad, ⟨front, back, p, hlinks, hlow, hne, hnone rfl, hfront⟩, (Except.error.inj heq).symm⟩

/-- A sum of a word and a product cannot be compared without parentheses. -/
theorem expression_joins_tiers_compared :
    let place (n : Nat) : Position := ⟨"f", 1, n + 1, n⟩
    expression false (.ofTokens [⟨place 0, .word, "a"⟩, ⟨place 1, .space, " "⟩, ⟨place 2, .symbol .plus, "+"⟩,
      ⟨place 3, .word, "b"⟩, ⟨place 4, .symbol .asterisk, "*"⟩, ⟨place 5, .integer, "2"⟩,
      ⟨place 6, .symbol .equal, "=="⟩, ⟨place 8, .word, "c"⟩, ⟨place 9, .newline, "\n"⟩]) =
        .error (.rejected (.ofFault (place 8) .mixedPrecedence)) := by
  intro place
  let sum : Link := ⟨.add, ⟨place 2, .symbol .plus, "+"⟩, ⟨place 3, .word, "b"⟩, rfl, .inl rfl⟩
  let product : Link := ⟨.multiply, ⟨place 4, .symbol .asterisk, "*"⟩, ⟨place 5, .integer, "2"⟩, rfl, .inr rfl⟩
  let comparison : Link := ⟨.equal, ⟨place 6, .symbol .equal, "=="⟩, ⟨place 8, .word, "c"⟩, rfl, .inl rfl⟩
  have hrest : EndsChain [⟨place 9, .newline, "\n"⟩] := ⟨by simp [EndsLeaf], by simp⟩
  obtain ⟨hiff, -, hfails⟩ := expression_joins_tiers (.ofTokens [⟨place 0, .word, "a"⟩,
    ⟨place 1, .space, " "⟩, ⟨place 2, .symbol .plus, "+"⟩, ⟨place 3, .word, "b"⟩,
    ⟨place 4, .symbol .asterisk, "*"⟩, ⟨place 5, .integer, "2"⟩, ⟨place 6, .symbol .equal, "=="⟩,
    ⟨place 8, .word, "c"⟩, ⟨place 9, .newline, "\n"⟩]) ⟨place 0, .word, "a"⟩ [sum, product, comparison]
    [⟨place 9, .newline, "\n"⟩] (.inl rfl) rfl hrest
  have hmixed : ¬ ∃ p, ∀ link ∈ [sum, product, comparison], link.IsLow → link.op.precedence = p := by
    rintro ⟨p, hp⟩
    have hsum : 4 = p := hp sum (by simp) (by decide)
    have hcomparison : 3 = p := hp comparison (by simp) (by decide)
    omega
  cases hrun : expression false _ with
  | ok result => exact absurd (hiff.1 ⟨result, hrun⟩) hmixed
  | error failure =>
    obtain ⟨bad, ⟨front, back, p, hlinks, hlow, -, ⟨link, hlink, -⟩, -⟩, rfl⟩ := hfails failure hrun
    match front, hlink, hlinks with
    | [_], _, hlinks =>
      obtain rfl : product = bad := (List.cons.inj (List.cons.inj hlinks).2).1
      exact absurd hlow (by decide)
    | [_, _], _, hlinks =>
      obtain rfl : comparison = bad := (List.cons.inj (List.cons.inj (List.cons.inj hlinks).2).2).1
      rfl
    | _ :: _ :: _ :: front, _, hlinks =>
      have hlength := congrArg List.length hlinks
      simp at hlength

end Tiers

end Parser

end DpLang
