import DpLang.Proofs.Derivation
import DpLang.Proofs.ProgressGrammar

/-!
# Derivations of names, types and expressions

Every parser of a name, a type or an expression that succeeds has derived its result from the tokens
it has passed, and the result is what may stand at its place.
-/

namespace DpLang

namespace Parser

variable {α : Type} {c d : Cursor} {kind : TokenKind} {t : Token}

section Tokens

lemma took_behind {ts : List Token} (h : c.settle.rest = t :: ts) (hk : t.kind = kind) :
    Took kind c t (c.settle.behind t ts) where
  isKind := hk
  solid := Cursor.solid_behind h
  behind finish hc := by
    have hsolid := Cursor.solid_behind h
    have hlast : (c.settle.behind t ts).last =
        ((c.settle.behind t ts).solid.head?.map Token.start).getD t.stop := by
      rw [Cursor.behind_last, Cursor.solid, Cursor.behind_rest, Cursor.head?_filter,
        List.dropWhile_idempotent]
    unfold Cursor.Behind placeOf
    rw [hlast]
    cases hs : (c.settle.behind t ts).solid with
    | cons u us => rfl
    | nil =>
      rw [hs] at hsolid
      exact hc t (by rw [hsolid]; rfl)

lemma skim_steps {o : Option Token} (h : skim kind c = .ok (o, d)) :
    (o = none ∧ d = c.settle) ∨ ∃ t, o = some t ∧ Took kind c t d := by
  have hskim : c.skim kind = (o, d) := Except.ok.inj h
  cases hr : c.settle.rest with
  | nil =>
    rw [Cursor.skim_of_nil hr] at hskim
    obtain ⟨rfl, rfl⟩ := Prod.mk.inj hskim
    exact .inl ⟨rfl, rfl⟩
  | cons t ts =>
    by_cases hk : t.kind = kind
    · rw [Cursor.skim_of_kind hr hk] at hskim
      obtain ⟨rfl, rfl⟩ := Prod.mk.inj hskim
      exact .inr ⟨t, rfl, took_behind hr hk⟩
    · rw [Cursor.skim_of_ne hr hk] at hskim
      obtain ⟨rfl, rfl⟩ := Prod.mk.inj hskim
      exact .inl ⟨rfl, rfl⟩

lemma take_took {message : Text} (h : take kind message c = .ok (t, d)) : Took kind c t d := by
  obtain ⟨u, us, hr, hu⟩ := rest_of_peekKind (peekKind?_of_take h)
  rw [take_run, Cursor.skim_of_kind hr hu] at h
  obtain ⟨rfl, rfl⟩ := Prod.mk.inj (Except.ok.inj h)
  exact took_behind hr hu

lemma skip_took (h : skip kind c = .ok (true, d)) : ∃ t, Took kind c t d := by
  obtain ⟨u, us, hr, hu⟩ := rest_of_peekKind (peekKind?_of_skip h)
  change Except.ok ((c.skim kind).1.isSome, (c.skim kind).2) = _ at h
  rw [Cursor.skim_of_kind hr hu] at h
  obtain ⟨-, rfl⟩ := Prod.mk.inj (Except.ok.inj h)
  exact ⟨u, took_behind hr hu⟩

lemma skip_steps {x : Bool} (hk : kind.isSilent = true) (h : skip kind c = .ok (x, d)) :
    Steps x c [] d := by
  cases x with
  | true =>
    obtain ⟨t, ht⟩ := skip_took h
    exact ht.silent hk
  | false =>
    rw [settle_of_skip h]
    exact .settle c

lemma lastStop_bind {β : Type} {f : Position → β} {y : β}
    (h : (lastStop >>= fun stop => pure (f stop)) c = .ok (y, d)) : y = f c.last ∧ d = c := by
  replace h := of_lastStop_bind h
  exact pure_ok_iff.1 h

end Tokens

section Lists

/-- A parser of nodes: what it gives is derived from the tokens it takes, and of a sort. -/
def Forms (P : Node → Prop) (p : Parser Node) : Prop :=
  ∀ ⦃c n d⦄, p c = .ok (n, d) → Steps true c [.node n] d ∧ P n

/-- A parser of the members of a list, which are nodes or nothing. -/
def FormsMember (P : Node → Prop) (p : Parser (Option Node)) : Prop :=
  ∀ ⦃c r d⦄, p c = .ok (r, d) → Steps true c (r.toList.map .node) d ∧ ∀ n ∈ r, P n

/-- A list of nodes has been read. If it has members, tokens have been taken. -/
def Lists (P : Node → Prop) (c : Cursor) (ns : List Node) (d : Cursor) : Prop :=
  (∃ b, Steps b c (ns.map .node) d ∧ (ns ≠ [] → b = true)) ∧ ∀ n ∈ ns, P n

variable {P Q : Node → Prop} {p : Parser Node} {ns : List Node}

lemma Forms.mono (h : Forms Q p) (hPQ : ∀ n, Q n → P n) : Forms P p := by
  intro c n d hn
  obtain ⟨hsteps, hQ⟩ := h hn
  exact ⟨hsteps, hPQ n hQ⟩

lemma Forms.member (h : Forms P p) : FormsMember P (member p) := by
  intro c r d hr
  obtain ⟨n, hn, rfl⟩ := bind_pure_ok hr
  obtain ⟨hsteps, hP⟩ := h hn
  exact ⟨hsteps, by simpa using hP⟩

lemma forms_firstOf {ps : List (Parser Node)} (h : ∀ p ∈ ps, Forms P p) : Forms P (firstOf ps) := by
  intro c n d hn
  obtain ⟨p, hp, hn⟩ := firstOf_ok hn
  exact h p hp hn

lemma formsMember_separator {message : Text} (hk : kind.isSilent = true) :
    FormsMember P (take kind message >>= fun _ => pure none) := by
  intro c r d hr
  obtain ⟨t, ht, rfl⟩ := bind_pure_ok hr
  exact ⟨(take_took ht).silent hk, by simp⟩

lemma formsMember_comma : FormsMember P comma := formsMember_separator rfl

lemma formsMember_newline : FormsMember P newline := formsMember_separator rfl

lemma formsMember_semicolon : FormsMember P semicolon := formsMember_separator rfl

lemma forms_comment (hP : ∀ start source, P (.comment start source)) : Forms P comment := by
  intro c n d hn
  obtain ⟨t, ht, rfl⟩ := bind_pure_ok hn
  exact ⟨(take_took ht).comment, hP _ _⟩

lemma membersWithin_lists {e : Parser Bool} {p : Parser (Option Node)} (he : StaysUnlessEnded e)
    (hp : FormsMember P p) {fuel : Nat} (h : membersWithin e p fuel c = .ok (ns, d)) :
    ∃ m, Lists P c ns m ∧ e m = .ok (true, d) := by
  refine membersWithin_induct (R := Lists P) he ?_ ?_ h
  · exact fun c => ⟨⟨false, .refl c, by simp⟩, by simp⟩
  · rintro c found d others m hfound ⟨⟨b, hrest, -⟩, hPs⟩
    obtain ⟨hsteps, hP⟩ := hp hfound
    have hc := (Steps.settle c).before hsteps
    refine ⟨⟨true, ?_, fun _ => rfl⟩, fun n hn => ?_⟩
    · rw [List.map_append]
      exact hc.trans hrest
    · rcases List.mem_append.1 hn with hn | hn
      · exact hP n (by simpa using hn)
      · exact hPs n hn

lemma formsMember_firstOf {ps : List (Parser (Option Node))} (h : ∀ p ∈ ps, FormsMember P p) :
    FormsMember P (firstOf ps) := by
  intro c n d hn
  obtain ⟨p, hp, hn⟩ := firstOf_ok hn
  exact h p hp hn

lemma membersUntil_lists {closing : Symbol} {ps : List (Parser (Option Node))}
    (hps : ∀ p ∈ ps, FormsMember P p) (h : membersUntil closing ps c = .ok (ns, d)) :
    ∃ m t, Lists P c ns m ∧ Took (.symbol closing) m t d := by
  obtain ⟨m, hlists, hend⟩ :=
    membersWithin_lists (fun _ _ hx => settle_of_skip hx) (formsMember_firstOf hps) h
  obtain ⟨t, ht⟩ := skip_took hend
  exact ⟨m, t, hlists, ht⟩

lemma Lists.settle (h : Lists P c ns d) : Lists P c ns d.settle := by
  obtain ⟨⟨b, hsteps, hb⟩, hP⟩ := h
  refine ⟨⟨b, ?_, hb⟩, hP⟩
  have hall := hsteps.andThen (.settle d)
  rwa [Bool.or_false] at hall

lemma settle_of_nakedEnd {stops : List TokenKind} {x : Bool}
    (h : nakedEnd stops c = .ok (x, d)) : d = c.settle := by
  replace h := of_peekKind?_bind h
  exact (pure_ok_iff.1 h).2

lemma nakedMembers_lists {ps : List (Parser (Option Node))} {stops : List TokenKind}
    (hps : ∀ p ∈ ps, FormsMember P p) (h : nakedMembers ps stops c = .ok (ns, d)) :
    Lists P c ns d := by
  obtain ⟨m, hlists, hend⟩ :=
    membersWithin_lists (fun _ _ => settle_of_nakedEnd) (formsMember_firstOf hps) h
  rw [settle_of_nakedEnd hend]
  exact hlists.settle

lemma Lists.after {c0 : Cursor} {b : Bool} (h : Lists P c ns d) (hs : Steps b c0 [] c) :
    Lists P c0 ns d := by
  obtain ⟨⟨b', hsteps, hb⟩, hP⟩ := h
  exact ⟨⟨b || b', hs.before hsteps, fun hne => by rw [hb hne, Bool.or_true]⟩, hP⟩

lemma Lists.group {m e : Cursor} {t u : Token} {closing : TokenKind} (h : Lists P m ns e)
    (ho : Took kind c t m) (hk : kind.opensGroup = true) (hc : Took closing e u d)
    (hk' : closing.closesGroup = true) :
    Steps true c (ns.map .node) d ∧ ∀ n ∈ ns, P n := by
  obtain ⟨⟨b, hsteps, -⟩, hP⟩ := h
  exact ⟨ho.group hk hsteps hc hk', hP⟩

lemma lists_of_steps (h : Steps true c (ns.map .node) d ∧ ∀ n ∈ ns, P n) :
    Lists P c ns d := ⟨⟨true, h.1, fun _ => rfl⟩, h.2⟩

end Lists

section Names

lemma nameParts_steps {fuel : Nat} {names : List Text} (h : nameParts fuel c = .ok (names, d)) :
    Steps true c [] d := by
  induction fuel generalizing c names with
  | zero => cases h
  | succ fuel ih =>
    rw [nameParts] at h
    obtain ⟨word, c1, hw, h⟩ := bind_ok_iff.1 h
    have hword := take_took hw
    obtain ⟨x, c2, hx, h⟩ := bind_ok_iff.1 h
    have hsteps := (hword.silent rfl).andThen (skip_steps rfl hx)
    cases x with
    | true =>
      obtain ⟨others, hothers, rfl⟩ := bind_pure_ok h
      exact hsteps.before (ih hothers)
    | false =>
      obtain ⟨rfl, rfl⟩ := pure_ok_iff.1 h
      exact hsteps

lemma qualifiedName_steps {name : QualifiedName} (h : qualifiedName c = .ok (name, d)) :
    Steps true c [] d := by
  obtain ⟨rooted, c1, hr, h⟩ := bind_ok_iff.1 h
  obtain ⟨parts, hparts, rfl⟩ := bind_pure_ok h
  exact (skip_steps rfl hr).taken (nameParts_steps hparts)

lemma forms_identifier : Forms (fun n => n.isName = true) identifier := by
  intro c n d h
  replace h := of_here_bind h
  obtain ⟨name, c2, hname, h⟩ := bind_ok_iff.1 h
  obtain ⟨rfl, rfl⟩ := lastStop_bind h
  exact ⟨((Steps.settle c).taken (qualifiedName_steps hname)).node rfl (.inl rfl) rfl, rfl⟩

lemma fieldNames_steps {fuel : Nat} {names : List Text} (h : fieldNames fuel c = .ok (names, d)) :
    ∃ b, Steps b c [] d := by
  induction fuel generalizing c names with
  | zero => cases h
  | succ fuel ih =>
    rw [fieldNames] at h
    obtain ⟨x, c1, hx, h⟩ := bind_ok_iff.1 h
    have hdot := skip_steps rfl hx
    cases x with
    | true =>
      obtain ⟨word, c2, hw, h⟩ := bind_ok_iff.1 h
      obtain ⟨others, hothers, rfl⟩ := bind_pure_ok h
      obtain ⟨b, hrest⟩ := ih hothers
      exact ⟨_, (hdot.before ((take_took hw).silent rfl)).before hrest⟩
    | false =>
      obtain ⟨rfl, rfl⟩ := pure_ok_iff.1 h
      exact ⟨_, hdot⟩

lemma selectorOnly_steps {s : Selector} (h : selectorOnly c = .ok (s, d)) :
    Steps true c [.node (.selector s)] d ∧ s.start = c.position := by
  replace h := of_here_bind h
  obtain ⟨word, c2, hw, h⟩ := bind_ok_iff.1 h
  obtain ⟨names, c3, hnames, h⟩ := bind_ok_iff.1 h
  obtain ⟨rfl, rfl⟩ := lastStop_bind h
  obtain ⟨b, hrest⟩ := fieldNames_steps hnames
  have hsteps := ((Steps.settle c).before ((take_took hw).silent rfl)).before hrest
  exact ⟨hsteps.node rfl (.inl rfl) rfl, rfl⟩

lemma forms_selector : Forms (fun n => ∃ s, n = .selector s) selector := by
  intro c n d h
  obtain ⟨s, c1, hs, h⟩ := bind_ok_iff.1 h
  replace h := of_peekKind?_bind h
  have hn : n = .selector s ∧ d = c1.settle := by
    generalize c1.peekKind? = kind at h
    split at h
    · exact absurd h not_bind_reject_ok
    · exact absurd h not_bind_reject_ok
    · exact absurd h not_bind_reject_ok
    · exact pure_ok_iff.1 h
  obtain ⟨rfl, rfl⟩ := hn
  exact ⟨(selectorOnly_steps hs).1.andThen (.settle c1), ⟨s, rfl⟩⟩

lemma typeFlags_steps {flags : TypeFlags} (h : typeFlags c = .ok (flags, d)) :
    ∃ b, Steps b c [] d := by
  obtain ⟨x1, c1, h1, h⟩ := bind_ok_iff.1 h
  obtain ⟨x2, c2, h2, h⟩ := bind_ok_iff.1 h
  obtain ⟨x3, c3, h3, h⟩ := bind_ok_iff.1 h
  obtain ⟨x4, h4, rfl⟩ := bind_pure_ok h
  exact ⟨_, (((skip_steps rfl h1).before (skip_steps rfl h2)).before (skip_steps rfl h3)).before
    (skip_steps rfl h4)⟩

lemma typeWithin_steps {fuel : Nat} {type : TypeExpr} (h : typeWithin fuel c = .ok (type, d)) :
    Steps true c [] d := by
  induction fuel generalizing c d type with
  | zero => cases h
  | succ fuel ih =>
    rw [typeWithin] at h
    obtain ⟨flags, c1, hflags, h⟩ := bind_ok_iff.1 h
    obtain ⟨b, hsteps⟩ := typeFlags_steps hflags
    obtain ⟨x, c2, hx, h⟩ := bind_ok_iff.1 h
    cases x with
    | true =>
      obtain ⟨opening, hopening⟩ := skip_took hx
      obtain ⟨item, c3, hitem, h⟩ := bind_ok_iff.1 h
      obtain ⟨closing, hclosing, rfl⟩ := bind_pure_ok h
      exact hsteps.taken (hopening.group rfl (ih hitem) (take_took hclosing) rfl)
    | false =>
      obtain rfl := settle_of_skip hx
      obtain ⟨name, hname, rfl⟩ := bind_pure_ok h
      exact hsteps.taken ((Steps.settle c1).before (qualifiedName_steps hname))

lemma typeSpec_steps {spec : TypeSpec} (h : typeSpec c = .ok (spec, d)) :
    Steps true c [.node (.typeSpec spec)] d := by
  replace h := of_here_bind h
  obtain ⟨type, c2, htype, h⟩ := bind_ok_iff.1 h
  obtain ⟨rfl, rfl⟩ := lastStop_bind h
  exact ((Steps.settle c).before (typeWithin_steps htype)).node rfl (.inl rfl) rfl

end Names

section Expressions

variable {multiline : Bool} {atomic : Parser Node}

lemma skipNewlinesWithin_steps {fuel : Nat} {x : Unit}
    (h : skipNewlinesWithin fuel c = .ok (x, d)) : ∃ b, Steps b c [] d := by
  induction fuel generalizing c with
  | zero =>
    obtain ⟨-, rfl⟩ := pure_ok_iff.1 h
    exact ⟨_, .refl _⟩
  | succ fuel ih =>
    rw [skipNewlinesWithin] at h
    obtain ⟨x, c1, hx, h⟩ := bind_ok_iff.1 h
    have hskip := skip_steps rfl hx
    cases x with
    | true =>
      obtain ⟨b, hrest⟩ := ih h
      exact ⟨_, hskip.before hrest⟩
    | false =>
      obtain ⟨-, rfl⟩ := pure_ok_iff.1 h
      exact ⟨_, hskip⟩

lemma skipNewlinesIf_steps {x : Unit} (h : skipNewlinesIf multiline c = .ok (x, d)) :
    ∃ b, Steps b c [] d := by
  cases multiline with
  | true => exact skipNewlinesWithin_steps h
  | false =>
    obtain ⟨-, rfl⟩ := pure_ok_iff.1 h
    exact ⟨_, .refl _⟩

lemma isSilent_of_ofSymbol? {s : Symbol} {op : BinaryOp} (h : BinaryOp.ofSymbol? s = some op) :
    (TokenKind.symbol s).isSilent = true := by
  cases s <;> first | rfl | cases h

lemma infixOperator?_steps {o : Option BinaryOp} (h : infixOperator? c = .ok (o, d)) :
    ∃ b, Steps b c [] d := by
  replace h := of_peekKind?_bind h
  have hnone (h : (pure none : Parser (Option BinaryOp)) c.settle = .ok (o, d)) :
      ∃ b, Steps b c [] d := by
    obtain ⟨-, rfl⟩ := pure_ok_iff.1 h
    exact ⟨_, .settle c⟩
  generalize c.peekKind? = kind at h
  rcases kind with _ | kind
  · exact hnone h
  cases kind with
  | symbol s =>
    dsimp only at h
    cases hop : BinaryOp.ofSymbol? s with
    | none => rw [hop] at h; exact hnone h
    | some op =>
      rw [hop] at h
      obtain ⟨x, c2, hx, h⟩ := bind_ok_iff.1 h
      obtain ⟨-, rfl⟩ := pure_ok_iff.1 h
      exact ⟨_, (Steps.settle c).before (skip_steps (isSilent_of_ofSymbol? hop) hx)⟩
  | _ => exact hnone h

lemma tightOperator?_steps {o : Option BinaryOp} (h : tightOperator? multiline c = .ok (o, d)) :
    ∃ b, Steps b c [] d := by
  rw [tightOperator?_run] at h
  cases hrun : (skipNewlinesIf multiline >>= fun _ => infixOperator?) c with
  | error e => rw [hrun] at h; cases h
  | ok r =>
    obtain ⟨op, c2⟩ := r
    rw [hrun] at h
    obtain ⟨x, c1, hx, hop⟩ := bind_ok_iff.1 hrun
    obtain ⟨a, hlines⟩ := skipNewlinesIf_steps hx
    obtain ⟨b, hinfix⟩ := infixOperator?_steps hop
    have hback (h : (Except.ok (none, c) : Except Failure (Option BinaryOp × Cursor)) = .ok (o, d)) :
        ∃ b, Steps b c [] d := by
      obtain ⟨rfl, rfl⟩ := Prod.mk.inj (Except.ok.inj h)
      exact ⟨_, .refl c⟩
    cases op with
    | none => exact hback h
    | some op =>
      dsimp only at h
      split_ifs at h with hmax
      · obtain ⟨rfl, rfl⟩ := Prod.mk.inj (Except.ok.inj h)
        exact ⟨_, hlines.before hinfix⟩
      · exact hback h

lemma Steps.binary {left right : Node} {op : BinaryOp}
    (h : Steps true c [.node left, .node right] d) :
    Steps true c [.node (.binary left op right d.last)] d :=
  h.node rfl (.inr ⟨left, [.node right], rfl, rfl⟩) rfl

lemma operandAfter_steps (ha : Forms (fun n => n.isExpr = true) atomic) {fuel : Nat} {c0 : Cursor}
    {left n : Node} (hleft : Steps true c0 [.node left] c) (hexpr : left.isExpr = true)
    (h : operandAfter atomic multiline left fuel c = .ok (n, d)) :
    Steps true c0 [.node n] d ∧ n.isExpr = true := by
  induction fuel generalizing c left with
  | zero => cases h
  | succ fuel ih =>
    rw [operandAfter] at h
    obtain ⟨o, c1, ho, h⟩ := bind_ok_iff.1 h
    obtain ⟨a, hoperator⟩ := tightOperator?_steps ho
    cases o with
    | none =>
      obtain ⟨rfl, rfl⟩ := pure_ok_iff.1 h
      exact ⟨hleft.andThen hoperator, hexpr⟩
    | some op =>
      obtain ⟨x, c2, hx, h⟩ := bind_ok_iff.1 h
      obtain ⟨b, hlines⟩ := skipNewlinesIf_steps hx
      obtain ⟨right, c3, hright, h⟩ := bind_ok_iff.1 h
      obtain ⟨hr, hrexpr⟩ := ha hright
      replace h := of_lastStop_bind h
      have hfront : Steps true c0 [.node left] c2 := (hleft.andThen hoperator).andThen hlines
      refine ih (Steps.binary (hfront.taking hr)) ?_ h
      rw [Node.isExpr, hexpr, hrexpr]
      rfl

lemma forms_operandOf (ha : Forms (fun n => n.isExpr = true) atomic) :
    Forms (fun n => n.isExpr = true) (operandOf atomic multiline) := by
  intro c n d h
  obtain ⟨first, c1, hfirst, h⟩ := bind_ok_iff.1 h
  obtain ⟨hsteps, hexpr⟩ := ha hfirst
  exact operandAfter_steps ha hsteps hexpr h

/-- The operands from the cursor on, behind those that have been read since `c0`. -/
lemma chainAfter_steps {operand : Parser Node} (ha : Forms (fun n => n.isExpr = true) operand)
    {fuel : Nat} {before : Option (Node × BinaryOp)} {n : Node} {c0 : Cursor} {b : Bool}
    (hbefore : Steps b c0 (before.toList.map fun x => .node x.1) c)
    (hexpr : ∀ x ∈ before, x.1.isExpr = true)
    (h : chainAfter operand multiline fuel before c = .ok (n, d)) :
    Steps true c0 [.node n] d ∧ n.isExpr = true := by
  induction fuel generalizing c before b with
  | zero => cases h
  | succ fuel ih =>
    rw [chainAfter_succ] at h
    obtain ⟨x, c1, hx, h⟩ := bind_ok_iff.1 h
    obtain ⟨b1, hlines⟩ := skipNewlinesIf_steps hx
    obtain ⟨right, c2, hright, h⟩ := bind_ok_iff.1 h
    obtain ⟨hr, hrexpr⟩ := ha hright
    replace h := of_lastStop_bind h
    have hfront := hbefore.andThen hlines
    have hjoined : Steps true c0 [.node (joined before right c2.last)] c2 ∧
        (joined before right c2.last).isExpr = true := by
      cases before with
      | none => exact ⟨hfront.taken hr, hrexpr⟩
      | some x =>
        refine ⟨Steps.binary (hfront.taken hr), ?_⟩
        rw [joined, Node.isExpr, hexpr x rfl, hrexpr]
        rfl
    generalize joined before right c2.last = left at h hjoined
    obtain ⟨hleft, hlexpr⟩ := hjoined
    obtain ⟨x, c4, hx, h⟩ := bind_ok_iff.1 h
    obtain ⟨b4, hlines4⟩ := skipNewlinesIf_steps hx
    obtain ⟨o, c5, ho, h⟩ := bind_ok_iff.1 h
    obtain ⟨b5, hoperator⟩ := infixOperator?_steps ho
    have hpassed : Steps true c0 [.node left] c5 := (hleft.andThen hlines4).andThen hoperator
    cases o with
    | none =>
      obtain ⟨rfl, rfl⟩ := pure_ok_iff.1 h
      exact ⟨hpassed, hlexpr⟩
    | some op =>
      have hnext : chainAfter operand multiline fuel (some (left, op)) c5 = .ok (n, d) := by
        dsimp only at h
        split_ifs at h with hmixed
        · obtain ⟨position, e, -, h⟩ := bind_ok_iff.1 h
          exact absurd h not_reject_bind_ok
        · exact h
      exact ih hpassed (by simpa using hlexpr) hnext

lemma forms_expressionOf (ha : Forms (fun n => n.isExpr = true) atomic) :
    Forms (fun n => n.isExpr = true) (expressionOf atomic multiline) := by
  intro c n d h
  exact chainAfter_steps (forms_operandOf ha) (.refl c) (by simp) h

end Expressions

section Values

lemma areValues_of_forall {ns : List Node} (h : ∀ n ∈ ns, areValues [n] = true) :
    areValues ns = true := by
  induction ns with
  | nil => rfl
  | cons n ns ih =>
    obtain ⟨hn, hns⟩ := List.forall_mem_cons.1 h
    cases n with
    | comment => exact ih hns
    | assignerDereference => exact ih hns
    | expression value =>
      rw [areValues, Bool.and_eq_true] at hn
      rw [areValues, ih hns, hn.1]
      rfl
    | _ => cases hn

lemma areValues_expression {value : Node} (h : value.isExpr = true) :
    areValues [.expression value] = true := by
  rw [areValues, h]
  rfl

variable {multiline : Bool} {atomic : Parser Node}

lemma assignerDereference?_steps {o : Option Node} (h : assignerDereference? c = .ok (o, d)) :
    match o with
    | none => d = c
    | some n => Steps true c [.node n] d ∧ ∃ start name stop, n = .assignerDereference start name stop := by
  rw [assignerDereference?_run] at h
  have hback (h : (Except.ok (none, c) : Except Failure (Option Node × Cursor)) = .ok (o, d)) :
      o = none ∧ d = c := by
    obtain ⟨rfl, rfl⟩ := Prod.mk.inj (Except.ok.inj h)
    exact ⟨rfl, rfl⟩
  have htook {kind : TokenKind} {c d : Cursor} {t : Token} (h : c.skim kind = (some t, d)) :
      Took kind c t d := by
    obtain ⟨hn, -⟩ | ⟨u, hu, ht⟩ := skim_steps (congrArg Except.ok h)
    · cases hn
    · obtain rfl := Option.some.inj hu
      exact ht
  rcases h1 : c.skim (.symbol .parenLeft) with ⟨_ | t1, c1⟩
  · rw [h1] at h
    obtain ⟨rfl, rfl⟩ := hback h
    rfl
  rw [h1] at h
  dsimp only at h
  rcases h2 : c1.skim .word with ⟨_ | t2, c2⟩
  · rw [h2] at h
    obtain ⟨rfl, rfl⟩ := hback h
    rfl
  rw [h2] at h
  dsimp only at h
  rcases h3 : c2.skim (.symbol .parenRight) with ⟨_ | t3, c3⟩
  · rw [h3] at h
    obtain ⟨rfl, rfl⟩ := hback h
    rfl
  rw [h3] at h
  obtain ⟨rfl, rfl⟩ := Prod.mk.inj (Except.ok.inj h)
  have hgroup := (htook h1).group rfl ((htook h2).silent rfl) (htook h3) rfl
  exact ⟨hgroup.node rfl (.inl rfl) rfl, _, _, _, rfl⟩

lemma unless_ok {α : Type} {ok : Option TokenKind → Bool} {fault : Fault} {x y : α}
    (h : (do
      if !ok (← peekKind?) then
        reject (← here) fault
      return x) c = .ok (y, d)) : y = x ∧ d = c.settle := by
  replace h := of_peekKind?_bind h
  dsimp only at h
  split_ifs at h with hends
  · exact absurd h not_bind_reject_bind_ok
  · exact pure_ok_iff.1 h

lemma forms_listValueOf (ha : Forms (fun n => n.isExpr = true) atomic) :
    Forms (fun n => areValues [n] = true) (listValueOf atomic) := by
  intro c n d h
  obtain ⟨o, c1, ho, h⟩ := bind_ok_iff.1 h
  have hname := assignerDereference?_steps ho
  cases o with
  | some node =>
    obtain ⟨hsteps, start, name, stop, rfl⟩ := hname
    obtain ⟨rfl, rfl⟩ := pure_ok_iff.1 h
    exact ⟨hsteps, rfl⟩
  | none =>
    rw [show c1 = c from hname] at h
    obtain ⟨value, c2, hvalue, h⟩ := bind_ok_iff.1 h
    obtain ⟨hsteps, hexpr⟩ := forms_expressionOf ha hvalue
    obtain ⟨x, c3, hx, h⟩ := bind_ok_iff.1 h
    have hcomma := hsteps.expression.andThen (skip_steps rfl hx)
    cases x with
    | true =>
      obtain ⟨rfl, rfl⟩ := pure_ok_iff.1 h
      exact ⟨hcomma, areValues_expression hexpr⟩
    | false =>
      obtain ⟨rfl, rfl⟩ := unless_ok h
      exact ⟨hcomma.andThen (.settle c3), areValues_expression hexpr⟩

lemma forms_callWith {alternatives : List (Parser (Option Node))}
    (ha : ∀ p ∈ alternatives, FormsMember (fun n => areValues [n] = true) p) :
    Forms (fun n => ∃ name args stop, n = .call name args stop ∧ areValues args = true)
      (callWith (membersUntil .parenRight alternatives)) := by
  intro c n d h
  obtain ⟨name, c1, hname, h⟩ := bind_ok_iff.1 h
  obtain ⟨hselector, hstart⟩ := selectorOnly_steps hname
  obtain ⟨t, c2, ht, h⟩ := bind_ok_iff.1 h
  obtain ⟨args, c3, hargs, h⟩ := bind_ok_iff.1 h
  obtain ⟨m, u, hlists, hu⟩ := membersUntil_lists ha hargs
  obtain ⟨hsteps, hvalues⟩ := hlists.group (take_took ht) rfl hu rfl
  obtain ⟨rfl, rfl⟩ := lastStop_bind h
  refine ⟨(hselector.taking hsteps).node rfl (.inl hstart) rfl, ?_⟩
  exact ⟨_, _, _, rfl, areValues_of_forall hvalues⟩

lemma forms_callOf (ha : Forms (fun n => n.isExpr = true) atomic) :
    Forms (fun n => n.isExpr = true) (callOf atomic) := by
  refine (forms_callWith ?_).mono ?_
  · simp only [List.forall_mem_cons]
    exact ⟨formsMember_comma, (forms_comment fun _ _ => rfl).member,
      (forms_listValueOf ha).member, formsMember_newline, by simp⟩
  · rintro n ⟨name, args, stop, rfl, hvalues⟩
    exact hvalues

lemma forms_targetCallOf (ha : Forms (fun n => n.isExpr = true) atomic) :
    Forms (fun n => n.isTarget = true) (targetCallOf atomic) := by
  refine (forms_callWith ?_).mono ?_
  · simp only [List.forall_mem_cons]
    exact ⟨formsMember_comma, (forms_listValueOf ha).member, formsMember_newline, by simp⟩
  · rintro n ⟨name, args, stop, rfl, hvalues⟩
    exact hvalues

lemma forms_indexOf (ha : Forms (fun n => n.isExpr = true) atomic) :
    Forms (fun n => n.isExpr = true ∧ n.isTarget = true) (indexOf atomic) := by
  intro c n d h
  obtain ⟨name, c1, hname, h⟩ := bind_ok_iff.1 h
  obtain ⟨hselector, hstart⟩ := selectorOnly_steps hname
  obtain ⟨t, c2, ht, h⟩ := bind_ok_iff.1 h
  obtain ⟨subscript, c3, hsub, h⟩ := bind_ok_iff.1 h
  obtain ⟨hinner, hexpr⟩ := forms_expressionOf ha hsub
  obtain ⟨u, c4, hu, h⟩ := bind_ok_iff.1 h
  obtain ⟨rfl, rfl⟩ := lastStop_bind h
  have hsteps := hselector.taking ((take_took ht).group rfl hinner (take_took hu) rfl)
  exact ⟨hsteps.node rfl (.inl hstart) rfl, hexpr, hexpr⟩

lemma forms_prefixedOf (ha : Forms (fun n => n.isExpr = true) atomic) (hk : kind.isSilent = true)
    (op : PrefixOp) (message : Text) :
    Forms (fun n => n.isExpr = true) (prefixedOf atomic kind op message) := by
  intro c n d h
  obtain ⟨t, c1, ht, h⟩ := bind_ok_iff.1 h
  obtain ⟨operand, c2, hoperand, h⟩ := bind_ok_iff.1 h
  obtain ⟨hsteps, hexpr⟩ := ha hoperand
  obtain ⟨rfl, rfl⟩ := lastStop_bind h
  have htook := take_took ht
  exact ⟨((htook.silent hk).before hsteps).node rfl (.inl htook.start) rfl, hexpr⟩

lemma forms_unaryOf (ha : Forms (fun n => n.isExpr = true) atomic) :
    Forms (fun n => n.isExpr = true) (unaryOf atomic) := by
  intro c n d h
  replace h := of_here_bind h
  replace h := of_peekKind?_bind h
  rw [Cursor.peekKind?_settle, Cursor.settle_settle] at h
  have hnone (h : (reject c.position (.unexpectedToken "prefix operator expected") :
      Parser Node) c.settle = .ok (n, d)) : False := not_reject_ok h
  generalize c.peekKind? = kind at h
  rcases kind with _ | kind
  · exact (hnone h).elim
  cases kind with
  | symbol s =>
    dsimp only at h
    cases hop : UnaryOp.ofSymbol? s with
    | none => rw [hop] at h; exact (hnone h).elim
    | some op =>
      rw [hop] at h
      obtain ⟨x, c3, hx, h⟩ := bind_ok_iff.1 h
      have hsilent : (TokenKind.symbol op.symbol).isSilent = true := by cases op <;> rfl
      have hoperator := (Steps.settle c).before (skip_steps hsilent hx)
      obtain ⟨operand, c4, hoperand, h⟩ := bind_ok_iff.1 h
      obtain ⟨hsteps, hexpr⟩ := ha hoperand
      obtain ⟨rfl, rfl⟩ := lastStop_bind h
      exact ⟨(hoperator.taken hsteps).node rfl (.inl rfl) rfl, hexpr⟩
  | _ => exact (hnone h).elim

lemma forms_literal (literalKind : LiteralKind) {message : Text} :
    Forms (fun n => n.isExpr = true) (literal literalKind.tokenKind literalKind message) := by
  intro c n d h
  obtain ⟨t, c1, ht, h⟩ := bind_ok_iff.1 h
  obtain ⟨rfl, rfl⟩ := lastStop_bind h
  have htook := take_took ht
  have hkept := htook.kept (by cases literalKind <;> rfl)
  exact ⟨hkept.node rfl (.inl htook.start) rfl, rfl⟩

lemma forms_keyword {P : Node → Prop} {keyword : Keyword} {message : Text}
    {f : Position → Position → Node}
    (hf : ∀ start stop, (f start stop).parts = [] ∧ (f start stop).start = start ∧
      (f start stop).stop = stop ∧ P (f start stop)) :
    Forms P (do
      let token ← take (.keyword keyword) message
      return f token.start (← lastStop)) := by
  intro c n d h
  obtain ⟨t, c1, ht, h⟩ := bind_ok_iff.1 h
  obtain ⟨rfl, rfl⟩ := lastStop_bind h
  have htook := take_took ht
  obtain ⟨hparts, hstart, hstop, hP⟩ := hf t.start d.last
  exact ⟨(htook.silent rfl).node hparts (.inl (hstart.trans htook.start)) hstop, hP⟩

lemma forms_boolean {keyword : Keyword} {value : Bool} {message : Text} :
    Forms (fun n => n.isExpr = true) (boolean keyword value message) :=
  forms_keyword (f := fun start stop => .boolean start value stop) fun _ _ => ⟨rfl, rfl, rfl, rfl⟩

lemma forms_nil : Forms (fun n => n.isExpr = true) nil :=
  forms_keyword (f := .nil) fun _ _ => ⟨rfl, rfl, rfl, rfl⟩

lemma forms_zero : Forms (fun n => n.isExpr = true) zero := by
  intro c n d h
  obtain ⟨t, c1, ht, h⟩ := bind_ok_iff.1 h
  obtain ⟨u, c2, hu, h⟩ := bind_ok_iff.1 h
  obtain ⟨rfl, rfl⟩ := lastStop_bind h
  have hgroup := (take_took ht).group rfl (.refl c1) (take_took hu) rfl
  exact ⟨hgroup.node rfl (.inl (take_took ht).start) rfl, rfl⟩

lemma forms_parenthesizedOf (ha : Forms (fun n => n.isExpr = true) atomic) :
    Forms (fun n => n.isExpr = true) (parenthesizedOf atomic) := by
  intro c n d h
  obtain ⟨t, c1, ht, h⟩ := bind_ok_iff.1 h
  obtain ⟨value, c2, hvalue, h⟩ := bind_ok_iff.1 h
  obtain ⟨hsteps, hexpr⟩ := forms_expressionOf ha hvalue
  obtain ⟨u, hu, rfl⟩ := bind_pure_ok h
  exact ⟨(take_took ht).group rfl hsteps (take_took hu) rfl, hexpr⟩

lemma forms_atomicOf (ha : Forms (fun n => n.isExpr = true) atomic) :
    Forms (fun n => n.isExpr = true) (atomicOf atomic) := by
  refine forms_firstOf ?_
  simp only [List.forall_mem_cons]
  refine ⟨forms_prefixedOf ha rfl _ _, forms_callOf ha, forms_literal .character,
    forms_prefixedOf ha rfl _ _, forms_boolean, (forms_indexOf ha).mono fun n hn => hn.1,
    forms_literal .integer, forms_nil, forms_parenthesizedOf ha,
    forms_prefixedOf ha rfl _ _, forms_selector.mono ?_,
    forms_literal .string, forms_boolean, forms_unaryOf ha, forms_zero, by simp⟩
  rintro n ⟨s, rfl⟩
  rfl

lemma forms_atomicWithin (fuel : Nat) : Forms (fun n => n.isExpr = true) (atomicWithin fuel) := by
  induction fuel with
  | zero => exact fun _ _ _ h => by cases h
  | succ fuel ih => exact forms_atomicOf ih

lemma forms_atomic : Forms (fun n => n.isExpr = true) Parser.atomic :=
  fun _ _ _ h => forms_atomicWithin _ h

lemma forms_expression : Forms (fun n => n.isExpr = true) (expression multiline) :=
  forms_expressionOf forms_atomic

lemma forms_listValue : Forms (fun n => areValues [n] = true) listValue :=
  forms_listValueOf forms_atomic

end Values

end Parser

end DpLang
