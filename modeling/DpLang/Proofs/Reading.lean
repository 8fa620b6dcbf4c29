import DpLang.Grammar.Declaration
import DpLang.Proofs.Lexing
import DpLang.Proofs.Rejection

/-!
# What parsers read

A parser that succeeds has passed some tokens. `Passes` says on which line the cursor stands before
and behind them, and which comments are among them.
-/

namespace DpLang

def Token.commentText (t : Token) : List Text := if t.kind = .comment then [t.text] else []

def TokenKind.isPlain (kind : TokenKind) : Bool := kind.isFlat && kind != .comment

lemma TokenKind.ne_newline {kind : TokenKind} (h : kind.isPlain = true) : kind ≠ .newline := by
  rintro rfl
  cases h

namespace Cursor

/-- The cursor stands on a line in front of the tokens of a text. Once a token has been taken, the
construct before the cursor stops on that line. -/
structure Stands (taken : Bool) (line : Int) (c : Cursor) : Prop where
  lexed : Lexed line c.rest
  finish : c.finish.line = line + lineEnds c.rest
  last : taken = true → c.last.line = line

def comments (c : Cursor) : List Text := c.rest.flatMap Token.commentText

/-- What comes next is the end of a line or of the tokens. -/
def AtLineEnd (c : Cursor) : Prop := ∀ kind, c.peekKind? = some kind → kind = .newline

variable {taken : Bool} {line : Int} {c d e : Cursor} {t : Token} {ts : List Token}

lemma newlines_of_isSpace (h : IsLexeme t.kind t.text) (ht : t.isSpace = true) :
    t.text.newlines = 0 := by
  have hk : t.kind = .space := beq_iff_eq.1 ht
  rw [hk] at h
  exact h.newlines_eq_zero rfl

lemma lexed_dropWhile (h : Lexed line ts) :
    Lexed line (ts.dropWhile Token.isSpace) ∧
      lineEnds (ts.dropWhile Token.isSpace) = lineEnds ts := by
  induction ts with
  | nil => exact ⟨h, rfl⟩
  | cons t ts ih =>
    by_cases ht : t.isSpace = true
    · have hn := newlines_of_isSpace h.2.1 ht
      have hts := h.2.2.2
      rw [hn, Int.natCast_zero, Int.add_zero] at hts
      rw [List.dropWhile_cons_of_pos ht]
      refine ⟨(ih hts).1, ?_⟩
      rw [(ih hts).2, lineEnds, lineEnds, List.map_cons, List.sum_cons, hn, Nat.zero_add]
    · rw [List.dropWhile_cons_of_neg ht]
      exact ⟨h, rfl⟩

lemma comments_dropWhile (ts : List Token) :
    (ts.dropWhile Token.isSpace).flatMap Token.commentText = ts.flatMap Token.commentText := by
  induction ts with
  | nil => rfl
  | cons t ts ih =>
    by_cases ht : t.isSpace = true
    · have hk : t.kind = .space := beq_iff_eq.1 ht
      rw [List.dropWhile_cons_of_pos ht, ih, List.flatMap_cons, Token.commentText, hk]
      rfl
    · rw [List.dropWhile_cons_of_neg ht]

lemma comments_settle (c : Cursor) : c.settle.comments = c.comments := comments_dropWhile c.rest

lemma Stands.settle (h : c.Stands taken line) : c.settle.Stands taken line where
  lexed := (lexed_dropWhile h.lexed).1
  finish := by rw [settle_rest, (lexed_dropWhile h.lexed).2]; exact h.finish
  last := h.last

lemma Stands.position (h : c.Stands taken line) : c.position.line = line := by
  unfold Cursor.position peek?
  have hs := h.settle
  cases hr : c.settle.rest with
  | nil =>
    have hf := hs.finish
    rw [hr] at hf
    simpa [lineEnds] using hf
  | cons t ts =>
    have hl := hs.lexed
    rw [hr] at hl
    exact hl.1

end Cursor

/-- The cursor `d`, on line `m`, stands behind `c`, on line `l`, with the comments between them. -/
structure Passes (taken : Bool) (c d : Cursor) (l m : Int) (texts : List Text) : Prop where
  stands : d.Stands taken m
  le : l ≤ m
  comments : c.comments = texts ++ d.comments

namespace Passes

variable {a b : Bool} {c d e : Cursor} {l m n : Int} {texts others : List Text}
  {t : Token} {ts : List Token}

lemma settle (h : c.Stands b l) : Passes b c c.settle l l [] where
  stands := h.settle
  le := Int.le_refl l
  comments := by rw [Cursor.comments_settle]; rfl

lemma trans (h : Passes a c d l m texts) (h' : Passes b d e m n others) :
    Passes b c e l n (texts ++ others) where
  stands := h'.stands
  le := Int.le_trans h.le h'.le
  comments := by rw [h.comments, h'.comments, List.append_assoc]

lemma weaken (h : Passes true c d l m texts) : Passes b c d l m texts where
  stands := { h.stands with last := fun _ => h.stands.last rfl }
  le := h.le
  comments := h.comments

lemma behind (h : c.Stands b l) (hr : c.settle.rest = t :: ts) :
    Passes true c (c.settle.behind t ts) l (l + t.text.newlines) t.commentText := by
  have hs := h.settle
  have hlexed := hs.lexed
  rw [hr] at hlexed
  obtain ⟨hstart, htoken, hcomment, hrest⟩ := hlexed
  have hdrop := Cursor.lexed_dropWhile hrest
  have hf := hs.finish
  rw [hr, lineEnds, List.map_cons, List.sum_cons, ← lineEnds] at hf
  refine ⟨⟨hdrop.1, ?_, fun _ => ?_⟩, by omega, ?_⟩
  · rw [Cursor.behind_rest, Cursor.behind_finish, hdrop.2, hf]
    omega
  · rw [Cursor.behind_last]
    cases hnext : ts.dropWhile Token.isSpace with
    | nil => simpa [Token.stop, line_after] using hstart
    | cons u us =>
      rw [hnext] at hdrop
      exact hdrop.1.1
  · rw [← Cursor.comments_settle, Cursor.comments, Cursor.comments, Cursor.behind_rest,
      Cursor.comments_dropWhile, hr, List.flatMap_cons]

end Passes

namespace Parser

variable {α β : Type} {b : Bool} {c d : Cursor} {l : Int} {kind : TokenKind}

section Steps

lemma bind_ok_iff {p : Parser α} {f : α → Parser β} {y : β} :
    (p >>= f) c = .ok (y, d) ↔ ∃ x e, p c = .ok (x, e) ∧ f x e = .ok (y, d) := by
  rw [bind_run]
  constructor
  · intro h
    cases hp : p c with
    | error e => rw [hp] at h; cases h
    | ok r => exact ⟨r.1, r.2, rfl, by rw [hp] at h; exact h⟩
  · rintro ⟨x, e, hp, hf⟩
    rw [hp]
    exact hf

lemma pure_ok_iff {x y : α} : (pure x : Parser α) c = .ok (y, d) ↔ y = x ∧ d = c := by
  constructor
  · intro h
    obtain ⟨rfl, rfl⟩ := Prod.mk.inj (Except.ok.inj h)
    exact ⟨rfl, rfl⟩
  · rintro ⟨rfl, rfl⟩
    rfl

lemma not_reject_ok {position : Position} {fault : Fault} {y : α} :
    ¬(reject position fault : Parser α) c = .ok (y, d) := nofun

lemma bind_pure_ok {p : Parser α} {f : α → β} {y : β} (h : (p >>= fun x => pure (f x)) c = .ok (y, d)) :
    ∃ x, p c = .ok (x, d) ∧ y = f x := by
  obtain ⟨x, e, hx, h⟩ := bind_ok_iff.1 h
  obtain ⟨rfl, rfl⟩ := pure_ok_iff.1 h
  exact ⟨x, hx, rfl⟩

section Binds

variable {r : β × Cursor}

lemma of_here_bind {f : Position → Parser β} (h : (here >>= f) c = .ok r) : f c.position c.settle = .ok r := h

lemma of_peekKind?_bind {f : Option TokenKind → Parser β} (h : (peekKind? >>= f) c = .ok r) :
    f c.peekKind? c.settle = .ok r := h

lemma of_lastStop_bind {f : Position → Parser β} (h : (lastStop >>= f) c = .ok r) : f c.last c = .ok r := h

lemma not_reject_bind_ok {position : Position} {fault : Fault} {f : α → Parser β} :
    ¬(reject position fault >>= f) c = .ok r := nofun

variable {p : Parser α} {position : α → Position} {fault : α → Fault}

lemma not_bind_reject_ok : ¬(p >>= fun x => reject (position x) (fault x)) c = .ok r := by
  intro h
  obtain ⟨_, _, -, h⟩ := bind_ok_iff.1 h
  exact not_reject_ok h

lemma not_bind_reject_bind_ok {γ : Type} {f : α → γ → Parser β} :
    ¬(p >>= fun x => reject (position x) (fault x) >>= f x) c = .ok r := by
  intro h
  obtain ⟨_, _, -, h⟩ := bind_ok_iff.1 h
  exact not_reject_bind_ok h

end Binds

lemma lastStop_bind_ok {f : Position → β} {y : β} (h : c.Stands true l)
    (hp : (lastStop >>= fun stop => pure (f stop)) c = .ok (y, d)) :
    ∃ stop, stop.line = l ∧ y = f stop ∧ d = c := by
  replace hp := of_lastStop_bind hp
  obtain ⟨rfl, rfl⟩ := pure_ok_iff.1 hp
  exact ⟨_, h.last rfl, rfl, rfl⟩

end Steps

section Tokens

/-- A token of a kind that starts on a line. -/
structure Found (kind : TokenKind) (l : Int) (t : Token) : Prop where
  isKind : t.kind = kind
  lexeme : IsLexeme kind t.text
  line : t.start.line = l

lemma atLineEnd_behind {t : Token} {ts : List Token} (h : ∀ u ∈ ts.head?, u.kind = .newline) :
    (c.behind t ts).AtLineEnd := by
  intro k hk
  rw [Cursor.peekKind?, Cursor.peek?, Cursor.settle_rest, Cursor.behind_rest,
    List.dropWhile_idempotent] at hk
  cases ts with
  | nil => cases hk
  | cons u us =>
    have hu := h u rfl
    rw [List.dropWhile_cons_of_neg (by simp [Token.isSpace, hu])] at hk
    rw [← Option.some.inj hk, hu]

lemma skim_reads {o : Option Token} (h : c.Stands b l) (hp : skim kind c = .ok (o, d)) :
    match o with
    | none => Passes b c d l l [] ∧ d = c.settle
    | some t => Found kind l t ∧ Passes true c d l (l + t.text.newlines) t.commentText ∧
        (kind = .comment → d.AtLineEnd) := by
  have hskim : c.skim kind = (o, d) := Except.ok.inj hp
  cases hr : c.settle.rest with
  | nil =>
    rw [Cursor.skim_of_nil hr] at hskim
    obtain ⟨rfl, rfl⟩ := Prod.mk.inj hskim
    exact ⟨.settle h, rfl⟩
  | cons t ts =>
    by_cases hk : t.kind = kind
    · rw [Cursor.skim_of_kind hr hk] at hskim
      obtain ⟨rfl, rfl⟩ := Prod.mk.inj hskim
      have hl := h.settle.lexed
      rw [hr] at hl
      refine ⟨⟨hk, hk ▸ hl.2.1, hl.1⟩, .behind h hr, fun hc => ?_⟩
      exact atLineEnd_behind (hl.2.2.1 (hk.trans hc))
    · rw [Cursor.skim_of_ne hr hk] at hskim
      obtain ⟨rfl, rfl⟩ := Prod.mk.inj hskim
      exact ⟨.settle h, rfl⟩

lemma peekKind?_of_skim {t : Token} (h : skim kind c = .ok (some t, d)) : c.peekKind? = some kind := by
  by_contra hk
  have hs : skim kind c = .ok (none, c.settle) := congrArg Except.ok (skim_of_peekKind hk)
  rw [hs] at h
  cases h

lemma peekKind?_of_take {t : Token} {message : Text} (h : take kind message c = .ok (t, d)) :
    c.peekKind? = some kind := by
  by_contra hk
  obtain ⟨report, hr⟩ := rejects_take hk message
  rw [hr] at h
  cases h

lemma peekKind?_of_skip (h : skip kind c = .ok (true, d)) : c.peekKind? = some kind := by
  by_contra hk
  rw [skip_of_peekKind hk] at h
  cases h

lemma peekKind?_ne_of_skip (h : skip kind c = .ok (false, d)) : c.peekKind? ≠ some kind := by
  intro hk
  obtain ⟨t, ts, hr, ht⟩ := rest_of_peekKind hk
  have hs : skip kind c = .ok (true, c.settle.behind t ts) := by
    change Except.ok ((c.skim kind).1.isSome, (c.skim kind).2) = _
    rw [Cursor.skim_of_kind hr ht]
    rfl
  rw [hs] at h
  cases h

lemma settle_of_skip (h : skip kind c = .ok (false, d)) : d = c.settle := by
  rw [skip_of_peekKind (peekKind?_ne_of_skip h)] at h
  exact (Prod.mk.inj (Except.ok.inj h)).2.symm

lemma take_reads {t : Token} {message : Text} (h : c.Stands b l)
    (hp : take kind message c = .ok (t, d)) :
    Found kind l t ∧ Passes true c d l (l + t.text.newlines) t.commentText ∧
      (kind = .comment → d.AtLineEnd) := by
  have hskim : skim kind c = .ok (some t, d) := by
    rw [take_run] at hp
    change Except.ok (c.skim kind) = _
    split at hp
    · obtain ⟨rfl, rfl⟩ := Prod.mk.inj (Except.ok.inj hp)
      exact congrArg _ ‹_›
    · cases hp
  exact skim_reads h hskim

lemma Found.plain {t : Token} (h : Found kind l t) (hk : kind.isPlain = true) :
    l + t.text.newlines = l ∧ t.commentText = [] := by
  obtain ⟨hflat, hne⟩ := Bool.and_eq_true_iff.1 hk
  refine ⟨by rw [h.lexeme.newlines_eq_zero hflat]; omega, if_neg ?_⟩
  rw [h.isKind]
  simpa using hne

lemma takePlain_reads {t : Token} {message : Text} (hk : kind.isPlain = true) (h : c.Stands b l)
    (hp : take kind message c = .ok (t, d)) : Found kind l t ∧ Passes true c d l l [] := by
  obtain ⟨ht, hpass, -⟩ := take_reads h hp
  rw [(ht.plain hk).1, (ht.plain hk).2] at hpass
  exact ⟨ht, hpass⟩

lemma skimPlain_reads {o : Option Token} (hk : kind.isPlain = true) (h : c.Stands b l)
    (hp : skim kind c = .ok (o, d)) :
    (∀ t ∈ o, Found kind l t) ∧ Passes (b || o.isSome) c d l l [] := by
  have hs := skim_reads h hp
  cases o with
  | none => exact ⟨by simp, by simpa using hs.1⟩
  | some t =>
    obtain ⟨ht, hpass, -⟩ := hs
    rw [(ht.plain hk).1, (ht.plain hk).2] at hpass
    exact ⟨by simpa using ht, by simpa using hpass⟩

lemma skipPlain_reads {x : Bool} (hk : kind.isPlain = true) (h : c.Stands b l)
    (hp : skip kind c = .ok (x, d)) : Passes (b || x) c d l l [] := by
  obtain ⟨o, hskim, rfl⟩ := bind_pure_ok hp
  exact (skimPlain_reads hk h hskim).2

end Tokens

section Choices

lemma firstAfter_ok {ps : List (Parser α)} {reports : List Report} {x : α}
    (h : firstAfter reports ps c = .ok (x, d)) : ∃ p ∈ ps, p c = .ok (x, d) := by
  induction ps generalizing reports with
  | nil =>
    obtain ⟨report, hr⟩ := rejects_firstAfter_nil (α := α) (c := c) reports
    rw [hr] at h
    cases h
  | cons p ps ih =>
    rw [firstAfter_cons_run] at h
    cases hp : p c with
    | ok r =>
      rw [hp] at h
      exact ⟨p, List.mem_cons_self, hp.trans h⟩
    | error e =>
      rw [hp] at h
      cases e with
      | stalled => cases h
      | rejected report =>
        obtain ⟨q, hq, hx⟩ := ih h
        exact ⟨q, List.mem_cons_of_mem p hq, hx⟩

lemma firstOf_ok {ps : List (Parser α)} {x : α} (h : firstOf ps c = .ok (x, d)) :
    ∃ p ∈ ps, p c = .ok (x, d) := firstAfter_ok h

end Choices

end Parser

section Members

def Node.commentSource? : Node → Option Text
  | .comment _ source => some source
  | _ => none

/-- The texts of the comments in trees. -/
def commentsIn (nodes : List Node) : List Text := (Node.walkAll nodes).filterMap Node.commentSource?

/-- The texts of the comments in a tree. -/
def Node.comments (n : Node) : List Text := n.walk.filterMap Node.commentSource?

lemma walkAll_cons (n : Node) (ns : List Node) : Node.walkAll (n :: ns) = n.walk ++ Node.walkAll ns :=
  rfl

lemma walkAll_append (ns ms : List Node) :
    Node.walkAll (ns ++ ms) = Node.walkAll ns ++ Node.walkAll ms := by
  induction ns with
  | nil => rfl
  | cons n ns ih => rw [List.cons_append, walkAll_cons, walkAll_cons, ih, List.append_assoc]

lemma walkAll_typeSpecs (types : List TypeSpec) :
    Node.walkAll (types.map Node.typeSpec) = types.map Node.typeSpec := by
  induction types with
  | nil => rfl
  | cons type types ih =>
    rw [List.map_cons, walkAll_cons, ih]
    rfl

lemma commentsIn_cons (n : Node) (ns : List Node) : commentsIn (n :: ns) = n.comments ++ commentsIn ns := by
  rw [commentsIn, walkAll_cons, List.filterMap_append]
  rfl

lemma commentsIn_append (ns ms : List Node) : commentsIn (ns ++ ms) = commentsIn ns ++ commentsIn ms := by
  rw [commentsIn, walkAll_append, List.filterMap_append]
  rfl

lemma Node.walk_eq (n : Node) : n.walk = n :: Node.walkAll n.children := by
  cases n with
  | forLoop start test bodyStart body stop =>
    cases test <;> simp [Node.walk, Node.children, walkAll_cons]
  | _ =>
    simp [Node.walk, Node.children, walkAll_append, walkAll_typeSpecs, walkAll_cons, Node.walkAll]

lemma Node.comments_of_children {n : Node} (h : n.commentSource? = none) :
    n.comments = commentsIn n.children := by
  rw [Node.comments, Node.walk_eq, List.filterMap_cons, h]
  rfl

lemma commentsIn_singleton (n : Node) : commentsIn [n] = n.comments := by
  rw [commentsIn_cons]
  exact List.append_nil _

/-- The node lies between two lines. -/
structure Node.Spans (l m : Int) (n : Node) : Prop where
  start : l ≤ n.start.line
  le : n.start.line ≤ n.stop.line
  stop : n.stop.line ≤ m

lemma Node.spans_of_line {l m : Int} {n : Node} (hs : n.start.line = l) (ht : n.stop.line = m)
    (hle : l ≤ m) : n.Spans l m := ⟨by omega, by omega, by omega⟩

lemma Node.Spans.mono {n : Node} {k l m : Int} (h : n.Spans k l) (hlm : l ≤ m) : n.Spans k m :=
  ⟨h.start, h.le, Int.le_trans h.stop hlm⟩

/-- The nodes lie between two lines one after the other, and none on the line of a comment before
it. If `pending`, a comment stands on the first line. -/
def Chained (l : Int) (pending : Bool) (m : Int) : List Node → Prop
  | [] => l ≤ m ∧ (pending = true → l < m)
  | n :: ns =>
    l ≤ n.start.line ∧ (pending = true → l < n.start.line) ∧ n.start.line ≤ n.stop.line ∧
      Chained n.stop.line n.isComment m ns

variable {l k m : Int} {pending q : Bool} {ns : List Node}

lemma Chained.mono (h : Chained k q m ns) (hl : l ≤ k) (hp : pending = true → l < k) :
    Chained l pending m ns := by
  cases ns with
  | nil => exact ⟨by have := h.1; omega, fun hq => by have := h.1; have := hp hq; omega⟩
  | cons n ns =>
    obtain ⟨h1, -, h3, h4⟩ := h
    exact ⟨by omega, fun hq => by have := hp hq; omega, h3, h4⟩

lemma Chained.le (h : Chained l pending m ns) : l ≤ m := by
  induction ns generalizing l pending with
  | nil => exact h.1
  | cons n ns ih =>
    obtain ⟨h1, -, h3, h4⟩ := h
    have := ih h4
    omega

lemma Chained.tighten {k : Int} (h : Chained l false k ns) (hl : l ≤ m)
    (hns : ∀ n ∈ ns, n.stop.line ≤ m ∧ n.isComment = false) : Chained l false m ns := by
  induction ns generalizing l with
  | nil => exact ⟨hl, by simp⟩
  | cons n ns ih =>
    obtain ⟨h1, h2, h3, h4⟩ := h
    obtain ⟨⟨hstop, hcomment⟩, hns⟩ := List.forall_mem_cons.1 hns
    refine ⟨h1, h2, h3, ?_⟩
    rw [hcomment] at h4 ⊢
    exact ih h4 hstop hns

lemma Chained.sublist {ms : List Node} (h : Chained l pending m ns) (hs : ms.Sublist ns) :
    Chained l pending m ms := by
  induction hs generalizing l pending with
  | slnil => exact h
  | @cons ms ns n hs ih =>
    obtain ⟨h1, h2, h3, h4⟩ := h
    exact ih (h4.mono (by omega) fun hp => by have := h2 hp; omega)
  | cons_cons n hs ih => exact ⟨h.1, h.2.1, h.2.2.1, ih h.2.2.2⟩

lemma Chained.spans (h : Chained l pending m ns) :
    ∀ n ∈ ns, n.Spans l m ∧ (n.isComment = true → n.stop.line < m) := by
  induction ns generalizing l pending with
  | nil => simp
  | cons n ns ih =>
    obtain ⟨h1, -, h3, hrest⟩ := h
    have hle := hrest.le
    refine List.forall_mem_cons.2 ⟨⟨⟨h1, h3, hle⟩, fun hc => ?_⟩, fun k hk => ?_⟩
    · cases ns with
      | nil => exact hrest.2 hc
      | cons k ns =>
        obtain ⟨-, hlt, hk, hrest⟩ := hrest
        have := hlt hc
        have := hrest.le
        omega
    · obtain ⟨hspan, hcomment⟩ := ih hrest k hk
      exact ⟨⟨by have := hspan.start; omega, hspan.le, hspan.stop⟩, hcomment⟩

end Members

namespace Parser

section Lists

/-- A parser of a member of a list: it takes a token, and at the end of a line nothing but that. -/
def Gives (P : Node → Prop) (p : Parser (Option Node)) : Prop :=
  ∀ ⦃b c l r d⦄, c.Stands b l → p c = .ok (r, d) →
    ∃ m, Passes true c d l m (commentsIn r.toList) ∧ (c.AtLineEnd → r = none ∧ l < m) ∧
      ∀ n ∈ r, P n ∧ n.Spans l m ∧ (n.isComment = true → n.stop.line = m ∧ d.AtLineEnd)

/-- A parser that tells whether a list is at its end. Unless `slack`, this is not the end of a
line. -/
def Ends (slack : Bool) (e : Parser Bool) : Prop :=
  ∀ ⦃b c l x d⦄, c.Stands b l → e c = .ok (x, d) →
    Passes b c d l l [] ∧ (x = true → slack = false → ¬c.AtLineEnd) ∧
      (x = false → d.peekKind? = c.peekKind?)

variable {b slack : Bool} {c d : Cursor} {l : Int} {P : Node → Prop} {e : Parser Bool}
  {p : Parser (Option Node)} {nodes : List Node}

/-- A parser of the members of a list, behind a token of the line. -/
def ReadsList (P : Node → Prop) (p : Parser (List Node)) : Prop :=
  ∀ ⦃c l nodes d⦄, c.Stands true l → p c = .ok (nodes, d) →
    ∃ m, Passes true c d l m (commentsIn nodes) ∧ Chained l false m nodes ∧ ∀ n ∈ nodes, P n

/-- A test for the end of a list takes nothing unless it holds. -/
def StaysUnlessEnded (e : Parser Bool) : Prop :=
  ∀ ⦃c d⦄, e c = .ok (false, d) → d = c.settle

/-- What holds of no members, and of members behind another one if it holds of them, holds of the
members of a list up to a cursor where it ends. -/
lemma membersWithin_induct {α : Type} {R : Cursor → List α → Cursor → Prop}
    {p : Parser (Option α)} (he : StaysUnlessEnded e) (hnil : ∀ c, R c [] c)
    (hcons : ∀ ⦃c found d others m⦄, p c.settle = .ok (found, d) → R d others m →
      R c (found.toList ++ others) m)
    {fuel : Nat} {all : List α} (h : membersWithin e p fuel c = .ok (all, d)) :
    ∃ m, R c all m ∧ e m = .ok (true, d) := by
  induction fuel generalizing c all with
  | zero => cases h
  | succ fuel ih =>
    rw [membersWithin_run] at h
    obtain ⟨x, c1, hx, h⟩ := bind_ok_iff.1 h
    cases x with
    | true =>
      obtain ⟨rfl, rfl⟩ := pure_ok_iff.1 h
      exact ⟨c, hnil c, hx⟩
    | false =>
      rw [if_neg Bool.false_ne_true] at h
      obtain ⟨found, c2, hfound, h⟩ := bind_ok_iff.1 h
      obtain ⟨others, hothers, rfl⟩ := bind_pure_ok h
      obtain rfl := he hx
      obtain ⟨m, hrest, hend⟩ := ih hothers
      exact ⟨m, hcons hfound hrest, hend⟩

lemma settle_of_atEnd {x : Bool} (h : atEnd c = .ok (x, d)) :
    d = c.settle ∧ x = c.peek?.isNone := by
  obtain ⟨o, e, ho, h⟩ := bind_ok_iff.1 h
  obtain ⟨rfl, rfl⟩ := Prod.mk.inj (Except.ok.inj ho)
  obtain ⟨rfl, rfl⟩ := pure_ok_iff.1 h
  exact ⟨rfl, rfl⟩

lemma membersWithin_reads (he : Ends slack e) (hp : Gives P p) {fuel : Nat} (pending : Bool)
    (h : c.Stands b l) (hpending : pending = true → c.AtLineEnd)
    (hm : membersWithin e p fuel c = .ok (nodes, d)) :
    ∃ m, Passes (b || !nodes.isEmpty) c d l m (commentsIn nodes) ∧
      Chained l pending (if slack then m + 1 else m) nodes ∧ ∀ n ∈ nodes, P n ∧ n.stop.line ≤ m := by
  induction fuel generalizing b c l pending nodes with
  | zero => cases hm
  | succ fuel ih =>
    rw [membersWithin_run] at hm
    obtain ⟨x, c1, hx, hm⟩ := bind_ok_iff.1 hm
    obtain ⟨hpass, hend, hgo⟩ := he h hx
    cases x with
    | true =>
      obtain ⟨rfl, rfl⟩ := pure_ok_iff.1 hm
      refine ⟨l, by rw [List.isEmpty_nil, Bool.not_true, Bool.or_false]; exact hpass,
        ⟨?_, fun hp => ?_⟩, by simp⟩
      · split <;> omega
      · cases slack with
        | true => rw [if_pos rfl]; omega
        | false => exact absurd (hpending hp) (hend rfl rfl)
    | false =>
      rw [if_neg (by simp)] at hm
      obtain ⟨found, c2, hfound, hm⟩ := bind_ok_iff.1 hm
      obtain ⟨others, hothers, rfl⟩ := bind_pure_ok hm
      have hline : c.AtLineEnd → c1.AtLineEnd := fun hc k hk => hc k (by rw [← hgo rfl]; exact hk)
      obtain ⟨k, hpass2, hnone, hsome⟩ := hp hpass.stands hfound
      have hstep := hpass.trans hpass2
      cases found with
      | none =>
        obtain ⟨m, hpass3, hchain, hall⟩ := ih false hpass2.stands (by simp) hothers
        refine ⟨m, (hstep.trans hpass3).weaken, hchain.mono hstep.le fun hp => ?_, hall⟩
        exact (hnone (hline (hpending hp))).2
      | some n =>
        obtain ⟨hn, hspan, hcomment⟩ := hsome n rfl
        obtain ⟨m, hpass3, hchain, hall⟩ := ih n.isComment hpass2.stands
          (fun hc => (hcomment hc).2) hothers
        refine ⟨m, ?_, ⟨hspan.start, fun hp => ?_, hspan.le, ?_⟩, ?_⟩
        · have hcs : commentsIn (Option.toList (some n) ++ others) =
              [] ++ commentsIn (some n).toList ++ commentsIn others := by
            rw [commentsIn_append]
            rfl
          rw [hcs]
          exact (hstep.trans hpass3).weaken
        · cases (hnone (hline (hpending hp))).1
        · cases hc : n.isComment with
          | true => rw [hc] at hchain; rw [(hcomment hc).1]; exact hchain
          | false => exact hchain.mono hspan.stop (by simp)
        · exact List.forall_mem_cons.2 ⟨⟨hn, Int.le_trans hspan.stop hpass3.le⟩, hall⟩

lemma gives_firstOf {ps : List (Parser (Option Node))} (h : ∀ p ∈ ps, Gives P p) :
    Gives P (firstOf ps) := by
  intro b c l r d hc hr
  obtain ⟨p, hp, hr⟩ := firstOf_ok hr
  exact h p hp hc hr

lemma members_reads {ps : List (Parser (Option Node))} (he : Ends slack e)
    (hps : ∀ p ∈ ps, Gives P p) (h : c.Stands b l) (hm : members e ps c = .ok (nodes, d)) :
    ∃ m, Passes (b || !nodes.isEmpty) c d l m (commentsIn nodes) ∧
      Chained l false (if slack then m + 1 else m) nodes ∧ ∀ n ∈ nodes, P n ∧ n.stop.line ≤ m :=
  membersWithin_reads he (gives_firstOf hps) false h (by simp) hm

lemma not_atLineEnd {kind : TokenKind} (h : c.peekKind? = some kind) (hk : kind ≠ .newline) :
    ¬c.AtLineEnd := fun hc => hk (hc kind h)

lemma ends_skip (closing : Symbol) : Ends false (skip (.symbol closing)) := by
  intro b c l x d h hx
  have hpass := skipPlain_reads rfl h hx
  cases x with
  | true =>
    rw [Bool.or_true] at hpass
    exact ⟨hpass.weaken, fun _ _ => not_atLineEnd (peekKind?_of_skip hx) nofun, by simp⟩
  | false =>
    rw [Bool.or_false] at hpass
    refine ⟨hpass, by simp, fun _ => ?_⟩
    rw [settle_of_skip hx]
    exact Cursor.peekKind?_settle c

lemma membersUntil_reads {closing : Symbol} {ps : List (Parser (Option Node))}
    (hps : ∀ p ∈ ps, Gives P p) : ReadsList P (membersUntil closing ps) := by
  intro c l nodes d h hm
  obtain ⟨m, hpass, hchain, hall⟩ := members_reads (ends_skip closing) hps h hm
  exact ⟨m, hpass, hchain, fun n hn => (hall n hn).1⟩

lemma nakedMembers_reads {ps : List (Parser (Option Node))} {stops : List TokenKind}
    (hps : ∀ p ∈ ps, Gives (fun n => P n ∧ n.isComment = false) p) (h : c.Stands b l)
    (hm : nakedMembers ps stops c = .ok (nodes, d)) :
    ∃ m, Passes (b || !nodes.isEmpty) c d l m (commentsIn nodes) ∧ Chained l false m nodes ∧
      ∀ n ∈ nodes, P n := by
  have he : Ends true (do
      let kind ← peekKind?
      return endsNakedList kind || kind.any stops.contains) := by
    intro b c l x d h hx
    replace hx := of_peekKind?_bind hx
    obtain ⟨rfl, rfl⟩ := pure_ok_iff.1 hx
    exact ⟨.settle h, by simp, fun _ => Cursor.peekKind?_settle c⟩
  obtain ⟨m, hpass, hchain, hall⟩ := members_reads he hps h hm
  exact ⟨m, hpass, hchain.tighten hpass.le fun n hn => ⟨(hall n hn).2, (hall n hn).1.2⟩,
    fun n hn => (hall n hn).1.1⟩

/-- A parser of a node that is not a comment. It takes a token. -/
def Makes (P : Node → Prop) (p : Parser Node) : Prop :=
  ∀ ⦃b c l n d⦄, c.Stands b l → p c = .ok (n, d) →
    ¬c.AtLineEnd ∧ n.isComment = false ∧ ∃ m, Passes true c d l m n.comments ∧ n.Spans l m ∧ P n

lemma Makes.gives {Q : Node → Prop} {p : Parser Node} (hp : Makes Q p)
    (hPQ : ∀ n, n.isComment = false → Q n → P n) : Gives P (member p) := by
  intro b c l r d h hr
  obtain ⟨n, hn, rfl⟩ := bind_pure_ok hr
  obtain ⟨hline, hcomment, m, hpass, hspan, hQ⟩ := hp h hn
  refine ⟨m, ?_, fun hc => absurd hc hline, ?_⟩
  · simpa [commentsIn, Node.walkAll, Node.comments] using hpass
  · rintro _ ⟨⟩
    exact ⟨hPQ n hcomment hQ, hspan, by simp [hcomment]⟩

lemma Makes.mono {Q : Node → Prop} {p : Parser Node} (hp : Makes Q p) (hPQ : ∀ n, Q n → P n) :
    Makes P p := by
  intro b c l n d h hn
  obtain ⟨hline, hcomment, m, hpass, hspan, hQ⟩ := hp h hn
  exact ⟨hline, hcomment, m, hpass, hspan, hPQ n hQ⟩

lemma gives_separator {kind : TokenKind} {message : Text} (hk : kind.isPlain = true) :
    Gives P (take kind message >>= fun _ => pure none) := by
  intro b c l r d h hr
  obtain ⟨t, ht, rfl⟩ := bind_pure_ok hr
  have hline := not_atLineEnd (peekKind?_of_take ht) (TokenKind.ne_newline hk)
  exact ⟨l, (takePlain_reads hk h ht).2, fun hc => absurd hc hline, by simp⟩

lemma gives_comma : Gives P comma := gives_separator rfl

lemma gives_semicolon : Gives P semicolon := gives_separator rfl

lemma gives_newline : Gives P newline := by
  intro b c l r d h hr
  obtain ⟨t, ht, rfl⟩ := bind_pure_ok hr
  obtain ⟨hfound, hpass, -⟩ := take_reads h ht
  have htext : t.text = ['\n'] := hfound.lexeme.shape
  have hcomment : t.commentText = [] := if_neg (by rw [hfound.isKind]; decide)
  rw [htext, hcomment] at hpass
  exact ⟨l + 1, hpass, fun _ => ⟨rfl, by omega⟩, by simp⟩

lemma gives_comment (hP : ∀ start source, IsLexeme .comment source → P (.comment start source)) :
    Gives P (member comment) := by
  intro b c l r d h hr
  obtain ⟨n, hn, rfl⟩ := bind_pure_ok hr
  obtain ⟨t, ht, rfl⟩ := bind_pure_ok hn
  obtain ⟨hfound, hpass, hend⟩ := take_reads h ht
  have hlines : l + t.text.newlines = l := by
    rw [hfound.lexeme.newlines_eq_zero rfl]
    omega
  have hcomment : t.commentText = [t.text] := if_pos hfound.isKind
  have hstop : (Node.comment t.start t.text).stop.line = l := by
    rw [Node.stop, line_after, hfound.line, hlines]
  have hline := not_atLineEnd (peekKind?_of_take ht) nofun
  rw [hlines, hcomment] at hpass
  refine ⟨l, hpass, fun hc => absurd hc hline, ?_⟩
  rintro _ ⟨⟩
  have hstart : (Node.comment t.start t.text).start.line = l := hfound.line
  exact ⟨hP _ _ hfound.lexeme, ⟨by omega, by omega, by omega⟩, fun _ => ⟨hstop, hend rfl⟩⟩

end Lists

end Parser

end DpLang
