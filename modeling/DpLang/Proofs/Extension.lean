import DpLang.Proofs.PairingFile
import DpLang.Proofs.Progress

/-!
# Parsers on longer token sequences

A parser takes a closing token only behind the opening one, and a line end only inside a group. So
where a line end outside of all groups follows, it does not get past this line end, whether it
succeeds or fails, and tokens that are added at the end change nothing: a cursor and the same cursor
with more tokens at the end make a pairing.
-/

namespace DpLang

/-- Where `k` groups are open, a token that may not be taken comes before the end. -/
def Guarded : Nat → List Token → Prop
  | _, [] => False
  | k, t :: ts => ∀ l ∈ t.kind.level k, Guarded l ts

namespace Guarded

variable {k : Nat} {ts : List Token}

lemma ne_nil (h : Guarded k ts) : ts ≠ [] := by
  rintro rfl
  exact h

lemma dropWhile (h : Guarded k ts) : Guarded k (ts.dropWhile Token.isSpace) := by
  induction ts with
  | nil => exact h
  | cons t ts ih =>
    by_cases ht : t.isSpace = true
    · have hkind : t.kind = .space := by simpa [Token.isSpace] using ht
      rw [List.dropWhile_cons_of_pos ht]
      exact ih (h k (by rw [hkind]; rfl))
    · rw [List.dropWhile_cons_of_neg ht]
      exact h

end Guarded

/-- The second cursor has `more` tokens at the end, the last of which stops at `finish`, and where
`k` groups are open no parser gets there. -/
structure Cursor.Joins (more : List Token) (finish : Position) (k : Nat) (c c' : Cursor) : Prop where
  rest : c'.rest = c.rest ++ more
  guarded : more = [] ∨ Guarded k c.rest
  stop : c'.finish = finish
  own : more = [] → c.finish = finish

/-- Also, what is before the cursors stops at the same place. -/
structure Cursor.Extends (more : List Token) (finish : Position) (k : Nat) (c c' : Cursor) : Prop
    extends Cursor.Joins more finish k c c' where
  last : c'.last = c.last

namespace Cursor

variable {more : List Token} {finish : Position} {k l : Nat} {c c' : Cursor}

lemma dropWhile_append (ts : List Token) (h : more = [] ∨ Guarded k ts) :
    (ts ++ more).dropWhile Token.isSpace = ts.dropWhile Token.isSpace ++ more ∧
      (more = [] ∨ Guarded k (ts.dropWhile Token.isSpace)) := by
  rcases h with rfl | h
  · exact ⟨by rw [List.append_nil, List.append_nil], .inl rfl⟩
  · have hne := h.dropWhile.ne_nil
    refine ⟨?_, .inr h.dropWhile⟩
    rw [List.dropWhile_append, if_neg (by simpa using hne)]

lemma Joins.settle (h : Joins more finish k c c') : Joins more finish k c.settle c'.settle where
  rest := by
    rw [settle_rest, settle_rest, h.rest]
    exact (dropWhile_append c.rest h.guarded).1
  guarded := (dropWhile_append c.rest h.guarded).2
  stop := h.stop
  own := h.own

lemma Extends.settle (h : Extends more finish k c c') : Extends more finish k c.settle c'.settle :=
  ⟨h.toJoins.settle, h.last⟩

lemma head?_append {ts : List Token} (h : more = [] ∨ Guarded k ts) :
    (ts ++ more).head? = ts.head? := by
  rcases h with rfl | h
  · rw [List.append_nil]
  · cases ts with
    | nil => exact h.elim
    | cons t ts => rfl

lemma Joins.peek? (h : Joins more finish k c c') : c'.peek? = c.peek? := by
  rw [Cursor.peek?, Cursor.peek?, h.settle.rest]
  exact head?_append h.settle.guarded

lemma Joins.peekKind? (h : Joins more finish k c c') : c'.peekKind? = c.peekKind? := by
  rw [Cursor.peekKind?, Cursor.peekKind?, h.peek?]

lemma Joins.position (h : Joins more finish k c c') : c'.position = c.position := by
  unfold Cursor.position
  rw [h.peek?]
  rcases h.guarded with hnil | hguarded
  · rw [h.stop, h.own hnil]
  · have hne := hguarded.dropWhile.ne_nil
    rw [Cursor.peek?, settle_rest]
    cases hr : c.rest.dropWhile Token.isSpace with
    | nil => exact absurd hr hne
    | cons t ts => rfl

lemma Joins.behind {t : Token} {ts : List Token} (h : Joins more finish k c c')
    (hc : c.settle.rest = t :: ts) (hl : t.kind.level k = some l) :
    c'.settle.rest = t :: (ts ++ more) ∧
      Extends more finish l (c.settle.behind t ts) (c'.settle.behind t (ts ++ more)) := by
  have hs := h.settle
  have hguarded : more = [] ∨ Guarded l ts := by
    rcases hs.guarded with hnil | hguarded
    · exact .inl hnil
    · rw [hc] at hguarded
      exact .inr (hguarded l hl)
  have hdrop := dropWhile_append ts hguarded
  refine ⟨by rw [hs.rest, hc]; rfl, ⟨?_, hdrop.2, h.stop, h.own⟩, ?_⟩
  · exact hdrop.1
  · rw [behind_last, behind_last, hdrop.1, head?_append hdrop.2]

end Cursor

namespace Parser

open Cursor (Joins Extends)

variable {α : Type} {more : List Token} {finish : Position} {k l : Nat}

/-- A cursor and one with `more` tokens at the end. -/
def extensions (more : List Token) (finish : Position) : Pairing :=
  ⟨.identity, Extends more finish⟩

instance : (extensions more finish).Lawful where
  settle h := Extends.settle h
  peek? {_ c d} h := by
    rw [Joins.peek? h.toJoins]
    cases c.peek? with
    | none => rfl
    | some t => exact congrArg some (Token.move_identity t).symm
  position h := Joins.position h.toJoins
  last h := Extends.last h
  behind {_ _ _ _ t _} h hr _ hl := by
    rw [show move (extensions more finish).shift t = t from Token.move_identity t]
    exact ⟨_, Joins.behind h.toJoins hr hl⟩

section Lines

lemma skim_newline {c d : Cursor} (h : Extends more finish (k + 1) c d) :
    (∃ t c' d', c.skim .newline = (some t, c') ∧ d.skim .newline = (some t, d') ∧
      Extends more finish (k + 1) c' d') ∨
    c.skim .newline = (none, c.settle) ∧ d.skim .newline = (none, d.settle) := by
  by_cases hk : c.peekKind? = some .newline
  · obtain ⟨t, ts, hr, ht⟩ := rest_of_peekKind hk
    obtain ⟨hr', hext⟩ := h.toJoins.behind hr (by rw [ht]; rfl)
    exact .inl ⟨t, _, _, Cursor.skim_of_kind hr ht, Cursor.skim_of_kind hr' ht, hext⟩
  · exact .inr ⟨skim_of_peekKind hk, skim_of_peekKind (by rwa [h.toJoins.peekKind?])⟩

lemma pairs_newline [Movable α] : (extensions more finish).Pairs (k + 1) (k + 1)
    (newline : Parser (Option α)) newline := by
  intro c d h
  unfold newline
  rw [bind_run, bind_run, take_run, take_run]
  obtain ⟨t, c', d', hc, hd, hext⟩ | ⟨hc, hd⟩ := skim_newline h
  · rw [hc, hd]
    exact .done hext
  · rw [hc, hd]
    exact .rejected _ _

/-- The steps suffice on both sides, as every line end is a token. -/
lemma extends_pastLines {i j : Nat} {c d : Cursor} (hi : c.rest.length < i) (hj : d.rest.length < j)
    (h : Extends more finish (k + 1) c d) :
    Extends more finish (k + 1) (c.pastLines i) (d.pastLines j) := by
  induction i generalizing j c d with
  | zero => omega
  | succ i ih =>
    obtain ⟨j, rfl⟩ : ∃ m, j = m + 1 := ⟨j - 1, by omega⟩
    rw [Cursor.pastLines, Cursor.pastLines]
    have hc := (ahead_skim .newline c).length
    have hd := (ahead_skim .newline d).length
    obtain ⟨t, c', d', hc', hd', hext⟩ | ⟨hc', hd'⟩ := skim_newline h
    · rw [hc'] at hc ⊢
      rw [hd'] at hd ⊢
      exact ih (by simp at hc; omega) (by simp at hd; omega) hext
    · rw [hc', hd']
      exact h.settle

instance : (extensions more finish).LawfulLines where
  skipNewlines k c d h := by
    change (extensions more finish).Tally (k + 1) (skipNewlinesWithin (c.rest.length + 1) c)
      (skipNewlinesWithin (d.rest.length + 1) d)
    rw [skipNewlinesWithin_run, skipNewlinesWithin_run]
    exact .done (extends_pastLines (Nat.lt_succ_self _) (Nat.lt_succ_self _) h)
  membersUntil hl hps hqs _ _ :=
    pairs_members (fun htrue hfalse => pairs_skip hl htrue hfalse)
      (List.rel_append hps (.cons pairs_newline hqs))

end Lines

section Start

variable {β : Type} {p : Parser α} {kind : TokenKind}

/-- It does not matter to the parser where the construct before the cursor stops. -/
def IgnoresLast (p : Parser α) : Prop := ∀ (c : Cursor) (last : Position), p { c with last } = p c

lemma IgnoresLast.bind (h : IgnoresLast p) (f : α → Parser β) : IgnoresLast (p >>= f) := by
  intro c last
  rw [bind_run, bind_run, h]

lemma ignoresLast_here {f : Position → Parser α} (hf : ∀ start, IgnoresLast (f start)) :
    IgnoresLast (here >>= f) := fun c last => hf c.position c.settle last

lemma ignoresLast_peek? {f : Option Token → Parser α} (hf : ∀ o, IgnoresLast (f o)) :
    IgnoresLast (peek? >>= f) := fun c last => hf c.peek? c.settle last

lemma skim_withLast (kind : TokenKind) (c : Cursor) (last : Position) :
    ({ c with last } : Cursor).skim kind = c.skim kind ∨
      c.skim kind = (none, c.settle) ∧
        ({ c with last } : Cursor).skim kind = (none, { c.settle with last }) := by
  by_cases hk : c.peekKind? = some kind
  · obtain ⟨t, ts, hr, ht⟩ := rest_of_peekKind hk
    left
    rw [Cursor.skim_of_kind hr ht, Cursor.skim_of_kind (c := { c with last }) hr ht]
    rfl
  · exact .inr ⟨skim_of_peekKind hk, skim_of_peekKind (c := { c with last }) hk⟩

lemma ignoresLast_take {message : Text} : IgnoresLast (take kind message) := by
  intro c last
  rw [take_run, take_run]
  rcases skim_withLast kind c last with h | ⟨hc, hc'⟩
  · rw [h]
  · rw [hc, hc']
    rfl

lemma ignoresLast_skip {f : Bool → Parser α} (hf : IgnoresLast (f false)) :
    IgnoresLast (skip kind >>= f) := by
  intro c last
  change f (({ c with last } : Cursor).skim kind).1.isSome (({ c with last } : Cursor).skim kind).2 =
    f (c.skim kind).1.isSome (c.skim kind).2
  rcases skim_withLast kind c last with h | ⟨hc, hc'⟩
  · rw [h]
  · rw [hc, hc']
    exact hf c.settle last

end Start

end Parser

end DpLang
