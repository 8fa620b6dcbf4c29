import DpLang.Proofs.Derivation
import Mathlib.Data.List.Forall2

/-!
# Pairs of parsers

Two parsers are run on two related cursors: the one may be the image of the other, or have more
tokens at its end. They make a pair if both runs fail, or both succeed with the same result, moved by
a shift, on related cursors. Nothing is said if one of the runs stalls, so their steps need not be
compared.

How the cursors are related may depend on how many groups are open. `Lawful` and `LawfulLines` ask of
the relation what the parsers of the grammar need to make pairs with themselves.
-/

namespace DpLang

namespace TokenKind

/-- How many groups are open behind a token, if it may be taken where `k` groups are open. -/
def level (kind : TokenKind) (k : Nat) : Option Nat :=
  if kind.opensGroup then some (k + 1)
  else if kind.closesGroup then
    match k with
    | 0 => none
    | k + 1 => some k
  else if kind = .newline then
    match k with
    | 0 => none
    | k + 1 => some (k + 1)
  else some k

/-- The same for tokens that no shift changes, but for their place. -/
def depth : TokenKind → Nat → Option Nat
  | .newline, _ => none
  | .comment, _ => none
  | kind, k => kind.level k

lemma of_depth {kind : TokenKind} {k l : Nat} (h : kind.depth k = some l) :
    kind ≠ .newline ∧ kind ≠ .comment ∧ kind.level k = some l := by
  cases kind with
  | newline => cases h
  | comment => cases h
  | _ => exact ⟨by simp, by simp, h⟩

end TokenKind

/-- A relation between cursors, where a number of groups is open, and the shift between what is read
at them. -/
structure Pairing where
  shift : Shift
  rel : Nat → Cursor → Cursor → Prop

def Parser.FailsAtLine {α : Type} (p : Parser α) : Prop :=
  ∀ c : Cursor, c.peekKind? = some .newline → ∃ failure, p c = .error failure

namespace Pairing

variable {α β : Type} [Movable α] [Movable β] {P : Pairing} {k l m : Nat}

/-- The outcomes of two runs that end with `l` open groups. -/
inductive Tally (P : Pairing) (l : Nat) :
    Except Failure (α × Cursor) → Except Failure (α × Cursor) → Prop where
  | stalled (y : Except Failure (α × Cursor)) : Tally P l (.error .stalled) y
  | stalls (x : Except Failure (α × Cursor)) : Tally P l x (.error .stalled)
  | rejected (r r' : Report) : Tally P l (.error (.rejected r)) (.error (.rejected r'))
  | done {a : α} {c d : Cursor} (h : P.rel l c d) : Tally P l (.ok (a, c)) (.ok (move P.shift a, d))

/-- The parsers do the same where `k` groups are open, and leave `l` groups open. -/
def Pairs (P : Pairing) (k l : Nat) (p q : Parser α) : Prop :=
  ∀ ⦃c d⦄, P.rel k c d → P.Tally l (p c) (q d)

/-- What is asked of a relation between cursors. -/
class Lawful (P : Pairing) : Prop where
  settle {k : Nat} {c d : Cursor} : P.rel k c d → P.rel k c.settle d.settle
  peek? {k : Nat} {c d : Cursor} : P.rel k c d → d.peek? = move P.shift c.peek?
  position {k : Nat} {c d : Cursor} : P.rel k c d → d.position = P.shift.place c.position
  last {k : Nat} {c d : Cursor} : P.rel k c d → d.last = P.shift.place c.last
  behind {k l : Nat} {c d : Cursor} {t : Token} {ts : List Token} : P.rel k c d →
    c.settle.rest = t :: ts → t.kind ≠ .newline → t.kind.level k = some l →
    ∃ us, d.settle.rest = move P.shift t :: us ∧
      P.rel l (c.settle.behind t ts) (d.settle.behind (move P.shift t) us)

/-- Line ends are left to the parsers that pass several of them, as there may be more of them on one
side than on the other. -/
class LawfulLines (P : Pairing) : Prop extends Lawful P where
  skipNewlines (k : Nat) : P.Pairs (k + 1) (k + 1) Parser.skipNewlines Parser.skipNewlines
  membersUntil {k : Nat} {closing : Symbol} {α : Type} [Movable α]
    {ps ps' qs qs' : List (Parser (Option α))} :
    (TokenKind.symbol closing).level (k + 1) = some k →
    List.Forall₂ (P.Pairs (k + 1) (k + 1)) ps ps' → List.Forall₂ (P.Pairs (k + 1) (k + 1)) qs qs' →
    (∀ p ∈ ps, p.FailsAtLine) → (∀ p ∈ ps', p.FailsAtLine) →
    P.Pairs (k + 1) k (Parser.membersUntil closing (ps ++ Parser.newline :: qs))
      (Parser.membersUntil closing (ps' ++ Parser.newline :: qs'))

lemma Tally.bind {p q : Parser α} {f g : α → Parser β} {c d : Cursor} (h : P.Tally l (p c) (q d))
    (hf : ∀ a c' d', p c = .ok (a, c') → P.rel l c' d' →
      P.Tally m (f a c') (g (move P.shift a) d')) :
    P.Tally m ((p >>= f) c) ((q >>= g) d) := by
  rw [Parser.bind_run, Parser.bind_run]
  generalize hx : p c = x at h
  generalize q d = y at h
  cases h with
  | stalled y => exact .stalled _
  | stalls x => exact .stalls _
  | rejected r r' => exact .rejected r r'
  | done h => exact hf _ _ _ hx h

lemma Pairs.bind {p q : Parser α} {f g : α → Parser β} (h : P.Pairs k l p q)
    (hf : ∀ a, P.Pairs l m (f a) (g (move P.shift a))) : P.Pairs k m (p >>= f) (q >>= g) :=
  fun _ _ hc => (h hc).bind fun a _ _ _ hd => hf a hd

end Pairing

namespace Parser

open Pairing (Tally Pairs Lawful)

variable {α β : Type} [Movable α] [Movable β] {P : Pairing} {k l m : Nat}

section Combinators

variable {p q : Parser α} {f g : α → Parser β}

lemma pairs_pure {a b : α} (h : b = move P.shift a) : P.Pairs k k (pure a : Parser α) (pure b) := by
  subst h
  exact fun _ _ hc => .done hc

lemma pairs_reject {i j : Position} {fault fault' : Fault} :
    P.Pairs k l (reject i fault : Parser α) (reject j fault') := fun _ _ _ => .rejected _ _

omit [Movable α] in
lemma pairs_rejectBind {i j : Position} {fault fault' : Fault} :
    P.Pairs k l (reject i fault >>= f) (reject j fault' >>= g) := fun _ _ _ => .rejected _ _

lemma pairs_stall : P.Pairs k l stall q := fun _ _ _ => .stalled _

lemma pairs_stalls : P.Pairs k l p stall := fun _ _ _ => .stalls _

lemma tally_firstOf {ps qs : List (Parser α)} {c d : Cursor}
    (h : List.Forall₂ (fun p q => P.Tally l (p c) (q d)) ps qs) :
    P.Tally l (firstOf ps c) (firstOf qs d) := by
  unfold firstOf
  generalize ([] : List Report) = rs
  suffices ∀ rs', P.Tally l (firstAfter rs ps c) (firstAfter rs' qs d) from this rs
  induction h generalizing rs with
  | nil =>
    intro rs'
    obtain ⟨r, hr⟩ := rejects_firstAfter_nil (α := α) (c := c) rs
    obtain ⟨r', hr'⟩ := rejects_firstAfter_nil (α := α) (c := d) rs'
    rw [hr, hr']
    exact .rejected r r'
  | @cons p q ps qs hpq _ ih =>
    intro rs'
    rw [firstAfter_cons_run, firstAfter_cons_run]
    generalize p c = x at hpq
    generalize q d = y at hpq
    cases hpq with
    | stalled y => exact .stalled _
    | stalls x => exact .stalls _
    | rejected r r' => exact ih _ _
    | done h => exact .done h

lemma pairs_firstOf {ps qs : List (Parser α)} (h : List.Forall₂ (P.Pairs k l) ps qs) :
    P.Pairs k l (firstOf ps) (firstOf qs) :=
  fun _ _ hc => tally_firstOf (h.imp fun _ _ hpq => hpq hc)

lemma pairs_bounded {p q : Nat → Parser α} (h : ∀ i j, P.Pairs k l (p i) (q j)) :
    P.Pairs k l (bounded p) (bounded q) := fun _ _ hc => h _ _ hc

lemma pairs_member (h : P.Pairs k l p q) : P.Pairs k l (member p) (member q) :=
  h.bind fun _ => pairs_pure rfl

lemma pairs_members {e : Parser Bool} {ps qs : List (Parser (Option α))}
    (he : ∀ {f g : Bool → Parser (List α)}, P.Pairs l l (f true) (g true) →
      P.Pairs k l (f false) (g false) → P.Pairs k l (e >>= f) (e >>= g))
    (h : List.Forall₂ (P.Pairs k k) ps qs) : P.Pairs k l (members e ps) (members e qs) := by
  refine pairs_bounded fun i j => ?_
  induction i generalizing j with
  | zero => exact pairs_stall
  | succ i ih =>
    cases j with
    | zero => exact pairs_stalls
    | succ j =>
      rw [membersWithin_run, membersWithin_run]
      refine he (pairs_pure rfl) ((pairs_firstOf h).bind fun found => (ih j).bind fun others => ?_)
      exact pairs_pure (by cases found <;> rfl)

end Combinators

section Primitives

variable [P.Lawful] {kind : TokenKind} {c d : Cursor}

lemma peekKind?_of_rel (h : P.rel k c d) : d.peekKind? = c.peekKind? := by
  rw [Cursor.peekKind?, Cursor.peekKind?, Lawful.peek? h]
  cases c.peek? <;> rfl

lemma pairs_here : P.Pairs k k here here := by
  intro c d h
  change P.Tally k (.ok (c.position, c.settle)) (.ok (d.position, d.settle))
  rw [Lawful.position h]
  exact .done (Lawful.settle h)

lemma pairs_lastStop : P.Pairs k k lastStop lastStop := by
  intro c d h
  change P.Tally k (.ok (c.last, c)) (.ok (d.last, d))
  rw [Lawful.last h]
  exact .done h

lemma pairs_peek? : P.Pairs k k peek? peek? := by
  intro c d h
  change P.Tally k (.ok (c.peek?, c.settle)) (.ok (d.peek?, d.settle))
  rw [Lawful.peek? h]
  exact .done (Lawful.settle h)

lemma pairs_peekKind? {f g : Option TokenKind → Parser α} (hf : ∀ o, P.Pairs k l (f o) (g o)) :
    P.Pairs k l (peekKind? >>= f) (peekKind? >>= g) := by
  intro c d h
  change P.Tally l (f c.peekKind? c.settle) (g d.peekKind? d.settle)
  rw [peekKind?_of_rel h]
  exact hf _ (Lawful.settle h)

lemma skim_cases (kind : TokenKind) (h : P.rel k c d) (hn : kind ≠ .newline) (hl : kind.level k = some l) :
    (∃ t c' d', t.kind = kind ∧ c.skim kind = (some t, c') ∧
      d.skim kind = (some (move P.shift t), d') ∧ P.rel l c' d') ∨
    c.skim kind = (none, c.settle) ∧ d.skim kind = (none, d.settle) := by
  by_cases hk : c.peekKind? = some kind
  · obtain ⟨t, ts, hr, ht⟩ := rest_of_peekKind hk
    obtain ⟨us, hr', hrel⟩ := Lawful.behind h hr (by rwa [ht]) (by rwa [ht])
    exact .inl ⟨t, _, _, ht, Cursor.skim_of_kind hr ht, Cursor.skim_of_kind hr' ht, hrel⟩
  · exact .inr ⟨skim_of_peekKind hk, skim_of_peekKind (by rwa [peekKind?_of_rel h])⟩

lemma pairs_takeToken {message : Text} {f g : Token → Parser α} (hn : kind ≠ .newline)
    (hl : kind.level k = some l)
    (hf : ∀ t, t.kind = kind → P.Pairs l m (f t) (g (move P.shift t))) :
    P.Pairs k m (take kind message >>= f) (take kind message >>= g) := by
  intro c d h
  rw [bind_run, bind_run, take_run, take_run]
  obtain ⟨t, c', d', ht, hc, hd, hrel⟩ | ⟨hc, hd⟩ := skim_cases kind h hn hl
  · rw [hc, hd]
    exact hf t ht hrel
  · rw [hc, hd]
    exact .rejected _ _

lemma pairs_take {message : Text} {f g : Token → Parser α} (hl : kind.depth k = some l)
    (hf : ∀ t, (move P.shift t).text = t.text → P.Pairs l m (f t) (g (move P.shift t))) :
    P.Pairs k m (take kind message >>= f) (take kind message >>= g) := by
  obtain ⟨hn, hc, hl⟩ := TokenKind.of_depth hl
  exact pairs_takeToken hn hl fun t ht => hf t (Token.move_text _ t (by rwa [ht]))

lemma pairs_skim {f g : Option Token → Parser α} (hl : kind.depth k = some l)
    (hsome : ∀ t, (move P.shift t).text = t.text →
      P.Pairs l m (f (some t)) (g (some (move P.shift t))))
    (hnone : P.Pairs k m (f none) (g none)) :
    P.Pairs k m (skim kind >>= f) (skim kind >>= g) := by
  obtain ⟨hn, hc, hl⟩ := TokenKind.of_depth hl
  intro c d h
  change P.Tally m (f (c.skim kind).1 (c.skim kind).2) (g (d.skim kind).1 (d.skim kind).2)
  obtain ⟨t, c', d', ht, hc, hd, hrel⟩ | ⟨hc, hd⟩ := skim_cases kind h hn hl
  · rw [hc, hd]
    exact hsome t (Token.move_text _ t (by rwa [ht])) hrel
  · rw [hc, hd]
    exact hnone (Lawful.settle h)

lemma pairs_skip {f g : Bool → Parser α} (hl : kind.depth k = some l)
    (htrue : P.Pairs l m (f true) (g true)) (hfalse : P.Pairs k m (f false) (g false)) :
    P.Pairs k m (skip kind >>= f) (skip kind >>= g) :=
  pairs_skim (f := fun o => f o.isSome) (g := fun o => g o.isSome) hl (fun _ _ => htrue) hfalse

lemma pairs_skipped {f g : Bool → Parser α} (hl : kind.depth k = some k)
    (hf : ∀ x, P.Pairs k m (f x) (g x)) : P.Pairs k m (skip kind >>= f) (skip kind >>= g) :=
  pairs_skip hl (hf true) (hf false)

lemma pairs_rejectHere {fault : Fault} :
    P.Pairs k l (here >>= fun p => (reject p fault : Parser α)) (here >>= fun p => reject p fault) :=
  pairs_here.bind fun _ => pairs_reject

lemma pairs_stop {a b : Position → α} (h : ∀ stop, b (move P.shift stop) = move P.shift (a stop)) :
    P.Pairs k k (lastStop >>= fun stop => pure (a stop)) (lastStop >>= fun stop => pure (b stop)) :=
  pairs_lastStop.bind fun stop => pairs_pure (h stop)

lemma pairs_unless {a b : α} (h : b = move P.shift a) {ok : Option TokenKind → Bool}
    {fault : Fault} :
    P.Pairs k k
      (do
        if !ok (← peekKind?) then
          reject (← here) fault
        return a)
      (do
        if !ok (← peekKind?) then
          reject (← here) fault
        return b) := by
  refine pairs_peekKind? fun kind => ?_
  dsimp only
  split_ifs
  · exact pairs_here.bind fun _ => pairs_rejectBind
  · exact pairs_pure h

lemma pairs_nakedMembers {ps qs : List (Parser (Option α))} {stops : List TokenKind}
    (h : List.Forall₂ (P.Pairs k k) ps qs) :
    P.Pairs k k (nakedMembers ps stops) (nakedMembers qs stops) := by
  refine pairs_members (fun {f g} htrue hfalse => ?_) h
  rw [bind_assoc, bind_assoc]
  refine pairs_peekKind? fun kind => ?_
  simp only [pure_bind]
  cases endsNakedList kind || kind.any stops.contains with
  | true => exact htrue
  | false => exact hfalse

lemma pairs_comma : P.Pairs k k (comma : Parser (Option α)) comma :=
  pairs_take rfl fun _ _ => pairs_pure rfl

lemma pairs_semicolon : P.Pairs k k (semicolon : Parser (Option α)) semicolon :=
  pairs_take rfl fun _ _ => pairs_pure rfl

lemma pairs_comment : P.Pairs k k comment comment := by
  refine pairs_takeToken (by decide) rfl fun t ht => pairs_pure ?_
  change Node.comment (P.shift.place t.start) (if t.kind = .comment then _ else _) = _
  rw [if_pos ht]
  rfl

end Primitives

end Parser

end DpLang
