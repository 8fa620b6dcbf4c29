import DpLang.Proofs.DerivationFile
import DpLang.Proofs.Equations
import DpLang.Proofs.Extension
import DpLang.Proofs.Lockstep

/-!
# Files with more tokens at the end

What is parsed from the tokens of a file that ends with a line end is still parsed from them if more
tokens follow.
-/

namespace DpLang

/-- The tokens close the `k` groups that are open before them and those that they open. -/
def Closed : Nat → List Token → Prop
  | k, [] => k = 0
  | k, t :: ts =>
    if t.kind.opensGroup then Closed (k + 1) ts
    else if t.kind.closesGroup then ∃ l, k = l + 1 ∧ Closed l ts
    else Closed k ts

section Groups

variable {k : Nat} {t : Token} {ts us : List Token} {ps : List Part} {finish : Position}

lemma closed_open (h : t.kind.opensGroup = true) : Closed k (t :: ts) ↔ Closed (k + 1) ts := by
  rw [Closed, if_pos h]

lemma opensGroup_of_closesGroup {kind : TokenKind} (h : kind.closesGroup = true) :
    kind.opensGroup = false := by
  cases kind with
  | symbol s => cases s <;> simp_all [TokenKind.closesGroup, TokenKind.opensGroup]
  | _ => rfl

lemma closed_close (h : t.kind.closesGroup = true) : Closed (k + 1) (t :: ts) ↔ Closed k ts := by
  rw [Closed, if_neg (by simp [opensGroup_of_closesGroup h]), if_pos h]
  simp

lemma closed_other (ho : ¬t.kind.opensGroup = true) (hc : ¬t.kind.closesGroup = true) :
    Closed k (t :: ts) ↔ Closed k ts := by
  rw [Closed, if_neg ho, if_neg hc]

lemma closed_filter : Closed k (ts.filter (!·.isSpace)) ↔ Closed k ts := by
  induction ts generalizing k with
  | nil => rfl
  | cons t ts ih =>
    by_cases ht : t.isSpace = true
    · have hkind : t.kind = .space := by simpa [Token.isSpace] using ht
      rw [List.filter_cons_of_neg (by simp [ht]), ih,
        closed_other (by rw [hkind]; exact Bool.false_ne_true) (by rw [hkind]; exact Bool.false_ne_true)]
    · rw [List.filter_cons_of_pos (by simpa using ht)]
      simp only [Closed, ih]

lemma Derives.closed (h : Derives finish ts ps us) (hus : Closed k us) : Closed k ts := by
  induction h generalizing k with
  | done ts => exact hus
  | @silent t ts us ps ht _ ih =>
    have hkinds : t.kind.opensGroup = false ∧ t.kind.closesGroup = false := by
      simp only [TokenKind.isSilent, Bool.and_eq_true, Bool.not_eq_true'] at ht
      exact ht.1
    exact (closed_other (by simp [hkinds.1]) (by simp [hkinds.2])).2 (ih hus)
  | @text t ts us ps ht _ ih =>
    have hkinds : t.kind.opensGroup = false ∧ t.kind.closesGroup = false := by
      cases hk : t.kind with
      | symbol s => rw [hk] at ht; cases ht
      | _ => exact ⟨rfl, rfl⟩
    exact (closed_other (by simp [hkinds.1]) (by simp [hkinds.2])).2 (ih hus)
  | mark _ ih => exact ih hus
  | group ho hc _ _ inner ih =>
    exact (closed_open ho).2 (inner ((closed_close hc).2 (ih hus)))
  | comment ht _ ih =>
    exact (closed_other (by rw [ht]; exact Bool.false_ne_true) (by rw [ht]; exact Bool.false_ne_true)).2 (ih hus)
  | expression _ _ inner ih => exact inner (ih hus)
  | node _ _ _ _ inner ih => exact inner (ih hus)
  | function _ _ _ _ _ _ inner ih => exact inner (ih hus)

def EndsLine (ts : List Token) : Prop := ∀ t ∈ ts.getLast?, t.kind = .newline

lemma Cursor.Ahead.endsLine {n : Nat} {c d : Cursor} (h : c.Ahead n d) (hline : EndsLine c.rest) :
    EndsLine d.rest := by
  obtain ⟨passed, hrest, -⟩ := h
  intro t ht
  refine hline t ?_
  rw [hrest, List.getLast?_append, ht]
  rfl

/-- Where all groups are closed, the last line end is outside of them. -/
lemma Closed.guarded (h : Closed k ts) (hne : ts ≠ []) (hline : EndsLine ts) : Guarded k ts := by
  induction ts generalizing k with
  | nil => exact absurd rfl hne
  | cons t ts ih =>
    cases ts with
    | nil =>
      have ht : t.kind = .newline := hline t rfl
      rw [closed_other (by rw [ht]; exact Bool.false_ne_true) (by rw [ht]; exact Bool.false_ne_true)] at h
      obtain rfl : k = 0 := h
      intro l hl
      rw [ht] at hl
      cases hl
    | cons u ts =>
      have hrest : EndsLine (u :: ts) := hline
      intro l hl
      refine ih ?_ (List.cons_ne_nil u ts) hrest
      unfold TokenKind.level at hl
      split_ifs at hl with hopen hclose hnewline
      · obtain rfl := Option.some.inj hl
        exact (closed_open hopen).1 h
      · cases k with
        | zero => cases hl
        | succ k =>
          obtain rfl := Option.some.inj hl
          exact (closed_close hclose).1 h
      · cases k with
        | zero => cases hl
        | succ k =>
          obtain rfl := Option.some.inj hl
          exact (closed_other hopen hclose).1 h
      · obtain rfl := Option.some.inj hl
        exact (closed_other hopen hclose).1 h

end Groups

namespace Parser

open Cursor (Joins Extends)

variable {more : List Token} {finish : Position} {c c' d : Cursor} {ns ms : List Node}

lemma closed_of_file (h : file c = .ok (ns, d)) : Closed 0 c.rest := by
  obtain ⟨m, ⟨⟨b, hsteps, -⟩, -⟩, hnil⟩ := file_lists h
  have hfits : c.Fits ((c.solid.getLast?.map Token.stop).getD c.finish) := by
    intro t ht
    rw [ht]
    rfl
  have hderives := hsteps.derives hfits
  rw [hnil] at hderives
  exact closed_filter.1 (hderives.closed rfl)

/-- Blanks apart, the second cursor has `more` tokens at the end, the last of which stops at
`finish`. -/
structure Meets (more : List Token) (finish : Position) (c c' : Cursor) : Prop where
  rest : c'.settle.rest = (c.rest ++ more).dropWhile Token.isSpace
  stop : c'.finish = finish
  own : more = [] → c.finish = finish

lemma Meets.of_joins {k : Nat} (h : Joins more finish k c c') : Meets more finish c c' :=
  ⟨by rw [Cursor.settle_rest, h.rest], h.stop, h.own⟩

/-- In front of a token, the cursors can be compared if the line end at the end is outside of all
groups. -/
lemma Meets.joins {k : Nat} (h : Meets more finish c c') (hguarded : more = [] ∨ Guarded k c.rest) :
    Joins more finish k c.settle c'.settle where
  rest := by
    rw [h.rest, Cursor.settle_rest]
    exact (Cursor.dropWhile_append c.rest hguarded).1
  guarded := (Cursor.dropWhile_append c.rest hguarded).2
  stop := h.stop
  own := h.own

lemma dropWhile_dropWhile_append (ts : List Token) :
    (ts.dropWhile Token.isSpace ++ more).dropWhile Token.isSpace =
      (ts ++ more).dropWhile Token.isSpace := by
  induction ts with
  | nil => rfl
  | cons t ts ih =>
    by_cases ht : t.isSpace = true
    · rw [List.dropWhile_cons_of_pos ht, ih, List.cons_append, List.dropWhile_cons_of_pos ht]
    · rw [List.dropWhile_cons_of_neg ht]

lemma moves_fileMembers (c : Cursor) : Moves 1 c (firstOf fileMembers c) :=
  Agrees.moves (fun _ => agrees_firstOf isLoop_file.forall₂) c

lemma firstOf_fileMembers_newline {t : Token} {ts : List Token} (hr : c.settle.rest = t :: ts)
    (ht : t.kind = .newline) :
    firstOf fileMembers c = .ok (none, c.settle.behind t ts) := by
  have hmoves := moves_fileMembers c
  refine (passesLine_firstOf failsAtLine_fileMembers c t ts hr ht).resolve_left fun hstalled => ?_
  change firstOf fileMembers c = _ at hstalled
  rw [hstalled] at hmoves
  exact hmoves

section Start

lemma ignoresLast_definedName (what : Text) : IgnoresLast (definedName what) :=
  ignoresLast_take.bind _

lemma ignoresLast_functionName : IgnoresLast functionName :=
  ignoresLast_skip (ignoresLast_take.bind _)

lemma ignoresLast_publicKeyword {α : Type} {f : Bool → Parser α} (hf : ∀ x, IgnoresLast (f x)) :
    IgnoresLast (publicKeyword >>= f) := by
  unfold publicKeyword
  rw [bind_assoc]
  refine ignoresLast_peek? fun token => ?_
  cases token with
  | none => exact hf false
  | some t =>
    dsimp only
    split_ifs
    · exact ignoresLast_skip (hf false)
    · exact hf false

lemma ignoresLast_functionDef : IgnoresLast functionDef :=
  ignoresLast_here fun _ => ignoresLast_publicKeyword fun _ => ignoresLast_functionName.bind _

end Start

lemma tally_fileMembers (h : Joins more finish 0 c c') (hk : c.peekKind? ≠ some .newline) :
    (extensions more finish).Tally 0 (firstOf fileMembers c) (firstOf fileMembers c') := by
  have hextends : Extends more finish 0 c { c' with last := c.last } :=
    ⟨⟨h.rest, h.guarded, h.stop, h.own⟩, rfl⟩
  have hstart {p : Parser (Option Node)} (hp : (extensions more finish).Pairs 0 0 p p)
      (hlast : IgnoresLast p) : (extensions more finish).Tally 0 (p c) (p c') := by
    rw [← hlast c' c.last]
    exact hp hextends
  obtain ⟨r, hr⟩ : Rejects (newline : Parser (Option Node)) c := (rejects_take hk _).bind _
  obtain ⟨r', hr'⟩ : Rejects (newline : Parser (Option Node)) c' :=
    (rejects_take (by rwa [h.peekKind?]) _).bind _
  have hnewline : (extensions more finish).Tally 0 ((newline : Parser (Option Node)) c)
      (newline c') := by
    rw [hr, hr']
    exact .rejected r r'
  refine tally_firstOf ?_
  refine .cons (hstart (pairs_member pairs_comment) ((ignoresLast_take.bind _).bind _)) ?_
  refine .cons (hstart (pairs_member pairs_constantDef) ?_) ?_
  · exact ((ignoresLast_definedName _).bind _).bind _
  refine .cons (hstart (pairs_member pairs_functionDef) (ignoresLast_functionDef.bind _)) ?_
  refine .cons (hstart (pairs_member pairs_importList) ((ignoresLast_take.bind _).bind _)) ?_
  refine .cons hnewline (.cons (hstart pairs_semicolon (ignoresLast_take.bind _)) ?_)
  exact .cons (hstart (pairs_member pairs_typeDef) (((ignoresLast_definedName _).bind _).bind _)) .nil

/-- A member of a file is the same in the longer file, and so are the tokens that it takes. -/
lemma meets_member (h : Joins more finish 0 c c') {found : Option Node}
    (hrun : firstOf fileMembers c = .ok (found, d)) :
    ∃ d', firstOf fileMembers c' = .ok (found, d') ∧ Meets more finish d d' := by
  by_cases hk : c.peekKind? = some .newline
  · obtain ⟨t, ts, hr, ht⟩ := rest_of_peekKind hk
    have hr' : c'.settle.rest = t :: (ts ++ more) := by
      rw [h.settle.rest, hr]
      rfl
    rw [firstOf_fileMembers_newline hr ht] at hrun
    obtain ⟨rfl, rfl⟩ := Prod.mk.inj (Except.ok.inj hrun)
    refine ⟨_, firstOf_fileMembers_newline hr' ht, ?_, h.stop, h.own⟩
    rw [Cursor.settle_rest, Cursor.behind_rest, Cursor.behind_rest, dropWhile_dropWhile_append,
      List.dropWhile_idempotent]
  · have htally := tally_fileMembers h hk
    have hmoves := moves_fileMembers c'
    rw [hrun] at htally
    generalize firstOf fileMembers c' = x at htally hmoves
    cases htally with
    | stalls x => exact hmoves.elim
    | done hd =>
      have hfound : move .identity found = found := by
        cases found with
        | none => rfl
        | some node => exact congrArg some node.moved_identity
      exact ⟨_, congrArg (fun o => Except.ok (o, _)) hfound, .of_joins hd.toJoins⟩

lemma ahead_of_member {found : Option Node} (h : firstOf fileMembers c = .ok (found, d)) :
    c.Ahead 1 d := by
  have hmoves := moves_fileMembers c
  rwa [h] at hmoves

lemma file_of_token {t : Token} (hpeek : c.peek? = some t) (h : file c = .ok (ns, d)) :
    ∃ found e others, firstOf fileMembers c.settle = .ok (found, e) ∧ file e = .ok (others, d) ∧
      ns = found.toList ++ others := by
  rw [file_eq] at h
  obtain ⟨x, e, hx, h⟩ := bind_ok_iff.1 h
  obtain ⟨rfl, rfl⟩ := settle_of_atEnd hx
  rw [hpeek] at h
  obtain ⟨found, e, hfound, h⟩ := bind_ok_iff.1 h
  obtain ⟨others, e', hothers, h⟩ := bind_ok_iff.1 h
  obtain ⟨rfl, rfl⟩ := pure_ok_iff.1 h
  exact ⟨found, e, others, hfound, hothers, rfl⟩

lemma file_of_member {t : Token} {found : Option Node} {e : Cursor} (hpeek : c.peek? = some t)
    (hfound : firstOf fileMembers c.settle = .ok (found, e)) (h : file e = .ok (ns, d)) :
    file c = .ok (found.toList ++ ns, d) := by
  have hend : atEnd c = .ok (false, c.settle) := by
    change Except.ok (c.peek?.isNone, c.settle) = _
    rw [hpeek]
    rfl
  rw [file_eq, membersStep, bind_of_ok hend, if_neg Bool.false_ne_true, bind_of_ok hfound, bind_of_ok h]
  rfl

lemma file_of_end (hpeek : c.peek? = none) : file c = .ok ([], c.settle) := by
  have hend : atEnd c = .ok (true, c.settle) := by
    change Except.ok (c.peek?.isNone, c.settle) = _
    rw [hpeek]
    rfl
  rw [file_eq, membersStep, bind_of_ok hend, if_pos rfl]
  rfl

lemma file_append (hmeets : Meets more finish c c') (hline : more = [] ∨ EndsLine c.rest)
    (h : file c = .ok (ns, d))
    (hmore : ∀ e, e.settle.rest = more.dropWhile Token.isSpace → e.finish = finish →
      ∃ d', file e = .ok (ms, d')) :
    ∃ d', file c' = .ok (ns ++ ms, d') := by
  induction hn : c.rest.length using Nat.strong_induction_on generalizing c c' ns with
  | _ n ih =>
    cases hpeek : c.peek? with
    | none =>
      rw [file_of_end hpeek] at h
      obtain ⟨rfl, rfl⟩ := Prod.mk.inj (Except.ok.inj h)
      refine hmore c' ?_ hmeets.stop
      have hblank : c.rest.dropWhile Token.isSpace = [] := List.head?_eq_none_iff.1 hpeek
      rw [hmeets.rest, ← dropWhile_dropWhile_append, hblank, List.nil_append]
    | some t =>
      obtain ⟨found, e, others, hfound, hothers, rfl⟩ := file_of_token hpeek h
      have hne : c.rest ≠ [] := by
        intro hnil
        rw [Cursor.peek?, Cursor.settle_rest, hnil] at hpeek
        cases hpeek
      have hguarded : more = [] ∨ Guarded 0 c.rest :=
        hline.imp_right fun hl => (closed_of_file h).guarded hne hl
      have hjoins := hmeets.joins hguarded
      obtain ⟨e', hfound', hmeets'⟩ := meets_member hjoins hfound
      have hahead := (Cursor.Ahead.settle c).trans (ahead_of_member hfound)
      have hline' : more = [] ∨ EndsLine e.rest := hline.imp_right hahead.endsLine
      have hlength := hahead.length
      obtain ⟨d', hrest⟩ := ih e.rest.length (by omega) hmeets' hline' hothers rfl
      have hpeek' : c'.peek? = some t := by
        rw [Cursor.peek?, hjoins.rest, Cursor.head?_append hjoins.guarded, ← hpeek, Cursor.peek?]
      rw [List.append_assoc]
      exact ⟨d', file_of_member hpeek' hfound' hrest⟩

end Parser

lemma finish_append {ts us : List Token} (h : us ≠ []) :
    (Cursor.ofTokens (ts ++ us)).finish = (Cursor.ofTokens us).finish := by
  change ((ts ++ us).getLast?.map Token.stop).getD _ = _
  rw [List.getLast?_append_of_ne_nil _ h]
  rfl

/-- Tokens that are added behind the line end of a file change nothing about what is before it. -/
theorem parse_append {ts us : List Token} {ns ms : List Node} (hts : parse ts = .ok ns)
    (hus : parse us = .ok ms) (hline : EndsLine ts) : parse (ts ++ us) = .ok (ns ++ ms) := by
  obtain ⟨d, hfile⟩ := file_of_parse hts
  obtain ⟨d', hfile'⟩ := file_of_parse hus
  by_cases hnil : us = []
  · subst hnil
    obtain ⟨rfl, -⟩ := Prod.mk.inj (Except.ok.inj (hfile'.symm.trans (Parser.file_of_end rfl)))
    rw [List.append_nil, List.append_nil, hts]
  · have hmeets : Parser.Meets us (Cursor.ofTokens us).finish (.ofTokens ts) (.ofTokens (ts ++ us)) :=
      ⟨rfl, finish_append hnil, fun h => absurd h hnil⟩
    -- What was added is read as on its own, but for what is before it.
    have hadded (e : Cursor) (hrest : e.settle.rest = us.dropWhile Token.isSpace)
        (hfinish : e.finish = (Cursor.ofTokens us).finish) : ∃ d', Parser.file e = .ok (ms, d') := by
      have hown : Parser.Meets [] (Cursor.ofTokens us).finish (.ofTokens us) e :=
        ⟨by rw [hrest, List.append_nil]; rfl, hfinish, fun _ => rfl⟩
      have hend (e : Cursor) (he : e.settle.rest = []) (_ : e.finish = (Cursor.ofTokens us).finish) :
          ∃ d', Parser.file e = .ok ([], d') :=
        ⟨_, Parser.file_of_end (by rw [Cursor.peek?, he]; rfl)⟩
      obtain ⟨d', h⟩ := Parser.file_append hown (.inl rfl) hfile' hend
      rw [List.append_nil] at h
      exact ⟨d', h⟩
    obtain ⟨e, h⟩ := Parser.file_append hmeets (.inr hline) hfile hadded
    unfold parse
    rw [show Parser.file.run (.ofTokens (ts ++ us)) = .ok (ns ++ ms, e) from h]
    rfl

end DpLang
