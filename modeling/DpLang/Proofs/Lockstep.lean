import DpLang.Proofs.PairingFile
import DpLang.Proofs.ProgressGrammar

/-!
# Parsers in lockstep

Two parsers are in lockstep if they do the same on a cursor and on its image: both fail, or both
succeed with the same result, moved by the shift, and take a number of tokens. Neither blanks, blank
lines nor positions matter to a parser that is in lockstep with itself.

A cursor and its image make a pairing. What takes an argument are lists with line ends, as several
line ends of the image may stand for one. So the nodes of a file are those of its significant tokens,
moved.
-/

namespace DpLang

namespace Parser

open Cursor (Image)

variable {α : Type} {s : Shift} {k l m n : Nat}

/-- The outcomes on a cursor `c` and on its image `d`. A success takes at least `k` tokens. -/
inductive Agree [Movable α] (s : Shift) (k : Nat) (c d : Cursor) :
    Except Failure (α × Cursor) → Except Failure (α × Cursor) → Prop where
  | success {a b : α} {c' d' : Cursor} (result : b = move s a) (image : Image s c' d')
      (left : c'.rest.length + k ≤ c.rest.length) (right : d'.rest.length + k ≤ d.rest.length) :
      Agree s k c d (.ok (a, c')) (.ok (b, d'))
  | failure {r r' : Report} : Agree s k c d (.error (.rejected r)) (.error (.rejected r'))

/-- The parsers agree on cursors with less than `n` tokens and their images with less than `m`. -/
def Lockstep [Movable α] (s : Shift) (k n m : Nat) (p q : Parser α) : Prop :=
  ∀ c d, Image s c d → c.rest.length < n → d.rest.length < m → Agree s k c d (p c) (q d)

/-- A cursor and its image, however many groups are open. -/
def images (s : Shift) : Pairing := ⟨s, fun _ => Image s⟩

section Images

variable [Movable α]

lemma tally_images {x y : Except Failure (α × Cursor)} (h : (images s).Tally k x y) :
    (images s).Tally l x y := by
  cases h with
  | stalled y => exact .stalled y
  | stalls x => exact .stalls x
  | rejected r r' => exact .rejected r r'
  | done h => exact .done h

lemma pairs_images {p q : Parser α} (h : (images s).Pairs k l p q) : (images s).Pairs m n p q :=
  fun _ _ hcd => tally_images (h hcd)

instance : (images s).Lawful where
  settle {_ c d} h := by
    change Image s c.settle d.settle
    rw [Image.settle h]
    exact Image.settled h
  peek? h := Image.peek? h
  position h := Image.position h
  last h := Image.last h
  behind {_ _ c d t ts} h hr hn _ := by
    replace h : Image s c d := h
    rw [h.settle] at hr ⊢
    cases h.next with
    | finished hc hd => rw [hr] at hc; cases hc
    | token u us vs hc hd hs hsig =>
      obtain ⟨rfl, rfl⟩ := List.cons.inj (hc.symm.trans hr)
      rw [decide_eq_false hn] at hsig
      exact ⟨vs, hd, h.behind hc hd hs hsig⟩

end Images

section Lists

/-- A test for the end of a list that takes nothing unless it holds, and does not hold in front of a
line end. -/
structure EndTest (e : Parser Bool) : Prop where
  settle : ∀ c : Cursor, e c.settle = e c
  stays : ∀ c next : Cursor, e c = .ok (false, next) → next = c.settle
  line : ∀ c : Cursor, c.peekKind? = some .newline → e c = .ok (false, c.settle)

/-- In front of a line end, the parser takes the line end or stalls. -/
def PassesLine (p : Parser (Option α)) : Prop :=
  ∀ (c : Cursor) (t : Token) (ts : List Token), c.settle.rest = t :: ts → t.kind = .newline →
    p c = .error .stalled ∨ p c = .ok (none, c.settle.behind t ts)

variable {e : Parser Bool} {p q : Parser (Option α)} {c : Cursor} {t : Token} {ts : List Token}

lemma peekKind?_of_newline (ht : c.settle.rest = t :: ts) (hn : t.kind = .newline) :
    c.peekKind? = some .newline := by
  rw [Cursor.peekKind?, Cursor.peek?, ht, ← hn]
  rfl

lemma membersWithin_line (he : EndTest e) (hp : PassesLine p) (ht : c.settle.rest = t :: ts)
    (hn : t.kind = .newline) (i : Nat) :
    membersWithin e p (i + 1) c = .error .stalled ∨
      membersWithin e p (i + 1) c = membersWithin e p i (c.settle.behind t ts) := by
  have hss : c.settle.settle = c.settle := Cursor.settle_settle
  rw [membersWithin_run, bind_of_ok (he.line c (peekKind?_of_newline ht hn)),
    if_neg Bool.false_ne_true, bind_run]
  rcases hp c.settle t ts (by rw [hss, ht]) hn with h | h
  · rw [h]
    exact .inl rfl
  · rw [h, hss]
    dsimp only
    rw [bind_run]
    right
    rcases membersWithin e p i (c.settle.behind t ts) with _ | ⟨others, next⟩ <;> rfl

lemma membersWithin_settle (he : EndTest e) (p : Parser (Option α)) (c : Cursor) (i : Nat) :
    membersWithin e p i c.settle = membersWithin e p i c := by
  cases i with
  | zero => rfl
  | succ i => rw [membersWithin_run, bind_run, bind_run, he.settle]

lemma membersWithin_pastLines (he : EndTest e) (hp : PassesLine p) (c : Cursor) (i N : Nat) :
    membersWithin e p i c = .error .stalled ∨
      ∃ i', membersWithin e p i c = membersWithin e p i' (c.pastLines N) := by
  induction N generalizing c i with
  | zero => exact .inr ⟨i, rfl⟩
  | succ N ih =>
    cases i with
    | zero => exact .inl rfl
    | succ i =>
      rw [Cursor.pastLines]
      by_cases hk : c.peekKind? = some .newline
      · obtain ⟨t, ts, hr, hn⟩ := rest_of_peekKind hk
        rw [Cursor.skim_of_kind hr hn]
        rcases membersWithin_line he hp hr hn i with h | h
        · exact .inl h
        · rw [h]
          exact ih _ i
      · rw [skim_of_peekKind hk]
        exact .inr ⟨i + 1, (membersWithin_settle he p c (i + 1)).symm⟩

/-- Alternatives pass a line end if nothing in front of that alternative can start there. -/
lemma passesLine_firstOf {ps qs : List (Parser (Option α))} (h : ∀ p ∈ ps, FailsAtLine p) :
    PassesLine (firstOf (ps ++ newline :: qs)) := by
  intro c t ts hr hn
  unfold firstOf
  generalize ([] : List Report) = rs
  induction ps generalizing rs with
  | nil =>
    refine .inr (firstAfter_cons_of_ok ?_ rs)
    unfold newline
    rw [bind_of_ok (a := t) (d := c.settle.behind t ts)]
    · rfl
    · rw [take_run, Cursor.skim_of_kind hr hn]
  | cons p ps ih =>
    obtain ⟨failure, hp⟩ := h p List.mem_cons_self c (peekKind?_of_newline hr hn)
    rw [List.cons_append, firstAfter_cons_run, hp]
    cases failure with
    | stalled => exact .inl rfl
    | rejected report => exact ih (fun q hq => h q (List.mem_cons_of_mem _ hq)) _

variable [Movable α]

lemma exists_newline {d : Cursor} (h : Image s c d) (hk : c.peekKind? = some .newline) :
    ∃ t ts us, c.rest = t :: ts ∧ t.kind = .newline ∧ d.settle.rest = move s t :: us ∧
      t.isSpace = false ∧ significant true us = move s ts := by
  obtain ⟨t, ts, hr, hn⟩ := rest_of_peekKind hk
  rw [h.settle] at hr
  cases h.next with
  | finished hc hd => rw [hr] at hc; cases hc
  | token u us vs hc hd hs hsig =>
    obtain ⟨rfl, rfl⟩ := List.cons.inj (hc.symm.trans hr)
    rw [decide_eq_true hn] at hsig
    exact ⟨u, us, vs, hc, hn, hd, hs, hsig⟩

lemma pairs_membersWithin_lines (het : EndTest e) (he : (images s).Pairs 0 0 e e)
    (h : ∀ c d, Image s c d → c.peekKind? ≠ some .newline → (images s).Tally 0 (p c) (q d))
    (hp : PassesLine p) (hq : PassesLine q) (i j : Nat) :
    (images s).Pairs 0 0 (membersWithin e p i) (membersWithin e q j) := by
  induction i generalizing j with
  | zero => exact pairs_stall
  | succ i ih =>
    cases j with
    | zero => exact pairs_stalls
    | succ j =>
      intro c d hcd
      replace hcd : Image s c d := hcd
      by_cases hk : c.peekKind? = some .newline
      · obtain ⟨t, ts, us, hc, hn, hd, hs, hr⟩ := exists_newline hcd hk
        rcases membersWithin_line het hp (by rw [hcd.settle, hc]) hn i with hx | hx
        · rw [hx]
          exact .stalled _
        rcases membersWithin_line het hq hd hn j with hy | hy
        · rw [hy]
          exact .stalls _
        rw [hx, hy, hcd.settle]
        -- the image may have more line ends here, which are passed on its side only
        rcases membersWithin_pastLines het hq (d.settle.behind (move s t) us) j us.length with
          hz | ⟨j', hz⟩
        · rw [hz]
          exact .stalls _
        · rw [hz]
          exact ih j' (hcd.past_newline hc hd hs hr le_rfl)
      · rw [membersWithin_run, membersWithin_run]
        refine (he hcd).bind fun ended c' d' hec hcd' => ?_
        cases ended with
        | true => exact .done hcd'
        | false =>
          obtain rfl : c' = c := (het.stays c c' hec).trans hcd.settle
          refine (h c' d' hcd' hk).bind fun found c'' d'' _ hcd'' => ?_
          refine (ih j hcd'').bind fun others c₃ d₃ _ hcd₃ => ?_
          exact pairs_pure (by cases found <;> rfl) hcd₃

variable {ps ps' qs qs' : List (Parser (Option α))}

lemma pairs_members_lines (het : EndTest e) (he : (images s).Pairs 0 0 e e)
    (hps : List.Forall₂ ((images s).Pairs 0 0) ps ps')
    (hqs : List.Forall₂ ((images s).Pairs 0 0) qs qs')
    (hp : ∀ p ∈ ps, FailsAtLine p) (hp' : ∀ p ∈ ps', FailsAtLine p) :
    (images s).Pairs 0 0 (members e (ps ++ newline :: qs)) (members e (ps' ++ newline :: qs')) := by
  refine pairs_bounded fun i j => pairs_membersWithin_lines het he (fun c d hcd hk => ?_)
    (passesLine_firstOf hp) (passesLine_firstOf hp') i j
  have hk' : d.peekKind? ≠ some .newline := by rwa [hcd.peekKind?]
  obtain ⟨r, hr⟩ : Rejects (newline : Parser (Option α)) c := (rejects_take hk _).bind _
  obtain ⟨r', hr'⟩ : Rejects (newline : Parser (Option α)) d := (rejects_take hk' _).bind _
  have hnewline : (images s).Tally 0 ((newline : Parser (Option α)) c) (newline d) := by
    rw [hr, hr']
    exact .rejected r r'
  exact tally_firstOf (List.rel_append (hps.imp fun _ _ h => h hcd)
    (.cons hnewline (hqs.imp fun _ _ h => h hcd)))

lemma endTest_skip (closing : Symbol) : EndTest (skip (.symbol closing)) where
  settle c := by
    change Except.ok ((c.settle.skim _).1.isSome, (c.settle.skim _).2) = .ok ((c.skim _).1.isSome, _)
    rw [Cursor.skim, Cursor.settle_settle, ← Cursor.skim]
  stays c next h := by
    by_cases hk : c.peekKind? = some (.symbol closing)
    · obtain ⟨t, ts, hr, ht⟩ := rest_of_peekKind hk
      change Except.ok ((c.skim _).1.isSome, (c.skim _).2) = _ at h
      rw [Cursor.skim_of_kind hr ht] at h
      cases h
    · rw [skip_of_peekKind hk] at h
      cases h
      rfl
  line c h := skip_of_peekKind (by rw [h]; exact fun h => by cases h)

end Lists

section Lines

lemma pastLines_of_ne {c d : Cursor} (h : Image s c d) (hk : c.peekKind? ≠ some .newline)
    (i : Nat) : c.pastLines i = c := by
  cases i with
  | zero => rfl
  | succ i => rw [Cursor.pastLines, skim_of_peekKind hk, h.settle]

lemma image_skipNewlines {c d : Cursor} (h : Image s c d) :
    Image s (c.pastLines (c.rest.length + 1)) (d.pastLines (d.rest.length + 1)) := by
  by_cases hk : c.peekKind? = some .newline
  · obtain ⟨t, ts, us, hc, hn, hd, hs, hr⟩ := exists_newline h hk
    have hlen : us.length ≤ d.rest.length := by
      have := d.settle_length_le
      rw [hd, List.length_cons] at this
      omega
    have image := h.past_newline hc hd hs hr hlen
    -- no second line end follows on the left
    have hk' : (c.behind t ts).peekKind? ≠ some .newline := by
      have hhead : (significant true us).head? = move s ts.head? := by
        rw [hr]
        cases ts <;> rfl
      rw [Cursor.peekKind?, Cursor.peek?, image.settle, Cursor.behind_rest,
        Cursor.dropWhile_move hr]
      cases ts with
      | nil => simp
      | cons u ts => exact fun h => significant_true_head hhead (Option.some.inj h)
    rw [Cursor.pastLines, Cursor.skim_of_kind (by rw [h.settle, hc]) hn, Cursor.pastLines,
      Cursor.skim_of_kind hd hn]
    dsimp only
    rw [h.settle, pastLines_of_ne image hk']
    exact image
  · have hk' : d.peekKind? ≠ some .newline := by rwa [h.peekKind?]
    rw [pastLines_of_ne h hk, Cursor.pastLines, skim_of_peekKind hk']
    exact h.settled

instance : (images s).LawfulLines where
  skipNewlines k c d h := by
    change (images s).Tally (k + 1) (skipNewlinesWithin (c.rest.length + 1) c)
      (skipNewlinesWithin (d.rest.length + 1) d)
    rw [skipNewlinesWithin_run, skipNewlinesWithin_run]
    exact .done (image_skipNewlines h)
  membersUntil {k closing _ _ _ _ _ _} hl hps hqs hp hp' := by
    have he : (images s).Pairs (k + 1) 0 (skip (.symbol closing)) (skip (.symbol closing)) := by
      rw [← bind_pure (skip (.symbol closing))]
      exact pairs_skip (l := k) hl (pairs_images (k := 0) (l := 0) (pairs_pure rfl))
        (pairs_images (k := 0) (l := 0) (pairs_pure rfl))
    exact pairs_images (pairs_members_lines (endTest_skip closing) (pairs_images he)
      (hps.imp fun _ _ => pairs_images) (hqs.imp fun _ _ => pairs_images) hp hp')

end Lines

lemma endTest_atEnd : EndTest atEnd where
  settle c := by
    change Except.ok (c.settle.peek?.isNone, c.settle.settle) = .ok (c.peek?.isNone, c.settle)
    rw [Cursor.peek?, Cursor.settle_settle, ← Cursor.peek?]
  stays c next h := by
    change Except.ok (c.peek?.isNone, c.settle) = _ at h
    simp only [Except.ok.injEq, Prod.mk.injEq] at h
    exact h.2.symm
  line c h := by
    change Except.ok (c.peek?.isNone, c.settle) = .ok (false, c.settle)
    cases hp : c.peek? with
    | none => rw [Cursor.peekKind?, hp] at h; cases h
    | some t => rfl

lemma pairs_file : (images s).Pairs 0 0 file file :=
  pairs_members_lines endTest_atEnd (pairs_peek?.bind fun token => pairs_pure (by cases token <;> rfl))
    (.cons (pairs_member pairs_comment) (.cons (pairs_member pairs_constantDef)
      (.cons (pairs_member pairs_functionDef) (.cons (pairs_member pairs_importList) .nil))))
    (.cons pairs_semicolon (.cons (pairs_member pairs_typeDef) .nil))
    failsAtLine_fileMembers failsAtLine_fileMembers

lemma agree_of_tally [Movable α] {c d : Cursor} {x y : Except Failure (α × Cursor)}
    (h : (images s).Tally k x y) (hx : Moves 0 c x) (hy : Moves 0 d y) : Agree s 0 c d x y := by
  cases h with
  | stalled y => exact hx.elim
  | stalls x => exact hy.elim
  | rejected r r' => exact .failure
  | done h => exact .success rfl h (Cursor.Ahead.length hx) (Cursor.Ahead.length hy)

lemma lockstep_file : Lockstep s 0 n m file file := fun c d hcd _ _ =>
  agree_of_tally (pairs_file hcd) (Agrees.moves (fun _ => agrees_file) c)
    (Agrees.moves (fun _ => agrees_file) d)

end Parser

/-- What is parsed from two images of the same tokens. -/
inductive ParsedAlike (s s' : Shift) (ts us : List Token) : Prop where
  | accepted (nodes : List Node) (left : parse ts = .ok (nodes.map (Node.moved s)))
      (right : parse us = .ok (nodes.map (Node.moved s')))
  | rejected (r r' : Report) (left : parse ts = .error (.rejected r))
      (right : parse us = .error (.rejected r'))

/-- Two images of the same tokens are both rejected, or both accepted with the same tree. -/
theorem parsedAlike {s s' : Shift} {c : Cursor} {ts us : List Token}
    (h : Cursor.Image s c (.ofTokens ts)) (h' : Cursor.Image s' c (.ofTokens us)) :
    ParsedAlike s s' ts us := by
  have hleft := Parser.lockstep_file (n := c.rest.length + 1) (m := ts.length + 1) _ _ h
    (Nat.lt_succ_self _) (Nat.lt_succ_self _)
  have hright := Parser.lockstep_file (n := c.rest.length + 1) (m := us.length + 1) _ _ h'
    (Nat.lt_succ_self _) (Nat.lt_succ_self _)
  have hparse (tokens : List Token) {z : Except Failure (List Node × Cursor)}
      (hz : Parser.file (.ofTokens tokens) = z) : parse tokens = z.map Prod.fst := by
    rw [← hz]
    rfl
  generalize hx : Parser.file (.ofTokens ts) = x at hleft
  generalize hy : Parser.file (.ofTokens us) = y at hright
  generalize Parser.file c = z at hleft hright
  cases hleft with
  | failure =>
    cases hright with
    | failure => exact .rejected _ _ (hparse ts hx) (hparse us hy)
  | @success nodes _ _ _ result image left right =>
    subst result
    cases hright with
    | success result' image' left' right' =>
      subst result'
      exact .accepted nodes (hparse ts hx) (hparse us hy)

end DpLang
