import DpLang.Proofs.Wellformed
import DpLang.Source
import Mathlib

/-!
# The tokens of a text

Each token of a text is a whole token by itself, starts on the line on which the one before it
stops, and is followed by a line end if it is a comment.
-/

namespace DpLang

section Lexemes

/-- What a text must not start with in order to stand right behind a token of the kind. -/
def Separates (kind : TokenKind) (rest : Text) : Prop :=
  match kind with
  | .space => ∀ c ∈ rest.head?, Token.isSpaceChar c = false
  | .comment => ∀ c ∈ rest.head?, c = '\n'
  | .keyword _ => ∀ c ∈ rest.head?, Token.isWordChar c = false
  | .word => ∀ c ∈ rest.head?, Token.isWordChar c = false
  | .integer => ∀ c ∈ rest.head?, Text.isDigit c = false
  | .symbol s => Symbol.atFront? (s.spelling ++ rest) = some s ∧ (s = .slash → rest.head? ≠ some '/')
  | _ => True

lemma takeWhile_of_stop {p : Char → Bool} {rest : Text} (h : ∀ c ∈ rest.head?, p c = false) :
    rest.takeWhile p = [] := by
  cases rest with
  | nil => rfl
  | cons c rest => simp [h c rfl]

lemma takeWhile_append_of_stop {p : Char → Bool} {l rest : Text}
    (h : ∀ c ∈ rest.head?, p c = false) : (l.takeWhile p ++ rest).takeWhile p = l.takeWhile p := by
  induction l with
  | nil => exact takeWhile_of_stop h
  | cons a l ih => by_cases ha : p a <;> simp [ha, ih, takeWhile_of_stop h]

lemma quotedRest?_escape (mark escaped : Char) (rest : Text) :
    Token.quotedRest? mark ('\\' :: escaped :: rest) =
      (Token.quotedRest? mark rest).map ('\\' :: escaped :: ·) := by
  rw [Token.quotedRest?, if_pos rfl]

lemma quotedRest?_mark {mark : Char} (h : mark ≠ '\\') (rest : Text) :
    Token.quotedRest? mark (mark :: rest) = some [mark] := by
  cases rest <;> rw [Token.quotedRest?, if_neg h, if_pos rfl]

lemma quotedRest?_other {mark c : Char} (hc : c ≠ '\\') (hm : c ≠ mark) (rest : Text) :
    Token.quotedRest? mark (c :: rest) = (Token.quotedRest? mark rest).map (c :: ·) := by
  cases rest <;> simp [Token.quotedRest?, hc, hm]

lemma quotedRest?_self {mark : Char} {rest text : Text}
    (h : Token.quotedRest? mark rest = some text) :
    text <+: rest ∧ ∀ others, Token.quotedRest? mark (text ++ others) = some text := by
  induction rest using Token.quotedRest?.induct mark generalizing text with
  | case1 => cases h
  | case2 => cases h
  | case3 escaped rest ih =>
    rw [quotedRest?_escape] at h
    obtain ⟨inner, hinner, rfl⟩ := Option.map_eq_some_iff.1 h
    obtain ⟨hpre, hself⟩ := ih hinner
    refine ⟨by simpa using hpre, fun others => ?_⟩
    rw [List.cons_append, List.cons_append, quotedRest?_escape, hself]
    rfl
  | case4 rest hc =>
    rw [quotedRest?_mark hc] at h
    obtain rfl := Option.some.inj h
    exact ⟨by simp, fun others => quotedRest?_mark hc others⟩
  | case5 c rest hc hm ih =>
    rw [quotedRest?_other hc hm] at h
    obtain ⟨inner, hinner, rfl⟩ := Option.map_eq_some_iff.1 h
    obtain ⟨hpre, hself⟩ := ih hinner
    refine ⟨by simpa using hpre, fun others => ?_⟩
    rw [List.cons_append, quotedRest?_other hc hm, hself]
    rfl

lemma atFront?_spelling (s : Symbol) : Symbol.atFront? s.spelling = some s := by cases s <;> decide

lemma spelling_isFront {t : Text} {s : Symbol} (h : Symbol.atFront? t = some s) : s.spelling <+: t := by
  have hs := List.find?_some h
  exact List.isPrefixOf_iff_prefix.1 hs

lemma spelling_cons (s : Symbol) :
    ∃ c tail, s.spelling = c :: tail ∧ (c = '/' → s = .slash ∧ tail = []) := by
  cases s <;> refine ⟨_, _, rfl, ?_⟩ <;> decide

lemma wordKind_cases (word : Text) :
    Token.wordKind word = .word ∨ ∃ k, Token.wordKind word = .keyword k := by
  rw [Token.wordKind]
  split
  · exact .inr ⟨_, rfl⟩
  · exact .inl rfl

lemma stops_of_separates_wordKind {word rest : Text} (h : Separates (Token.wordKind word) rest) :
    ∀ c ∈ rest.head?, Token.isWordChar c = false := by
  obtain hk | ⟨k, hk⟩ := wordKind_cases word <;> rw [hk] at h <;> exact h

lemma ne_slash_of_wordStart {c : Char} (h : Token.isWordStart c = true) : c ≠ '/' := by
  rintro rfl
  revert h
  decide

lemma ne_slash_of_digit {c : Char} (h : Text.isDigit c = true) : c ≠ '/' := by
  rintro rfl
  revert h
  decide

lemma ne_slash_of_quoteKind {c : Char} {kind : TokenKind} (h : Token.quoteKind? c = some kind) :
    c ≠ '/' := by
  rintro rfl
  simp [Token.quoteKind?] at h

/-- How a token is cut off a text, by the characters in front. -/
inductive CutOff : Text → TokenKind → Text → Prop where
  | newline (others : Text) : CutOff ('\n' :: others) .newline ['\n']
  | space {c : Char} (others : Text) (hn : c ≠ '\n') (hb : Text.isBlank c = true) :
      CutOff (c :: others) .space (c :: others.takeWhile Token.isSpaceChar)
  | comment (others : Text) :
      CutOff ('/' :: '/' :: others) .comment ('/' :: '/' :: others.takeWhile (· != '\n'))
  | word {c : Char} (others : Text) (hn : c ≠ '\n') (hb : ¬Text.isBlank c = true)
      (hw : Token.isWordStart c = true) :
      CutOff (c :: others) (Token.wordKind (c :: others.takeWhile Token.isWordChar))
        (c :: others.takeWhile Token.isWordChar)
  | integer {c : Char} (others : Text) (hn : c ≠ '\n') (hb : ¬Text.isBlank c = true)
      (hw : ¬Token.isWordStart c = true) (hd : Text.isDigit c = true) :
      CutOff (c :: others) .integer (c :: others.takeWhile Text.isDigit)
  | quoted {c : Char} {kind : TokenKind} {others text : Text} (hn : c ≠ '\n') (hb : ¬Text.isBlank c = true)
      (hw : ¬Token.isWordStart c = true) (hd : ¬Text.isDigit c = true) (hq : Token.quoteKind? c = some kind)
      (htext : Token.quotedRest? c others = some text) : CutOff (c :: others) kind (c :: text)
  | symbol {c : Char} {s : Symbol} {others : Text} (hn : c ≠ '\n') (hb : ¬Text.isBlank c = true)
      (hw : ¬Token.isWordStart c = true) (hd : ¬Text.isDigit c = true) (hq : Token.quoteKind? c = none)
      (hs : Symbol.atFront? (c :: others) = some s) : CutOff (c :: others) (.symbol s) s.spelling

lemma cutOff_of_lexeme? {t text : Text} {kind : TokenKind} (h : Token.lexeme? t = some (kind, text)) :
    CutOff t kind text := by
  cases t with
  | nil => cases h
  | cons c others =>
    rw [Token.lexeme?] at h
    split_ifs at h with hn hb hc hw hd
    · obtain ⟨rfl, rfl⟩ := Prod.mk.inj (Option.some.inj h)
      rw [hn]
      exact .newline others
    · obtain ⟨rfl, rfl⟩ := Prod.mk.inj (Option.some.inj h)
      exact .space others hn hb
    · obtain ⟨rfl, rfl⟩ := Prod.mk.inj (Option.some.inj h)
      obtain ⟨hfirst, hsecond⟩ := Bool.and_eq_true_iff.1 hc
      obtain ⟨others, rfl⟩ := List.head?_eq_some_iff.1 (beq_iff_eq.1 hsecond)
      rw [of_decide_eq_true hfirst, List.takeWhile_cons_of_pos (by decide)]
      exact .comment others
    · obtain ⟨rfl, rfl⟩ := Prod.mk.inj (Option.some.inj h)
      exact .word others hn hb hw
    · obtain ⟨rfl, rfl⟩ := Prod.mk.inj (Option.some.inj h)
      exact .integer others hn hb hw hd
    · cases hq : Token.quoteKind? c with
      | some k =>
        rw [hq] at h
        obtain ⟨text, htext, he⟩ := Option.map_eq_some_iff.1 h
        obtain ⟨rfl, rfl⟩ := Prod.mk.inj he
        exact .quoted hn hb hw hd hq htext
      | none =>
        rw [hq] at h
        obtain ⟨s, hs, he⟩ := Option.map_eq_some_iff.1 h
        obtain ⟨rfl, rfl⟩ := Prod.mk.inj he
        exact .symbol hn hb hw hd hq hs

/-- A token that is cut off a text is cut off every text that goes on otherwise. -/
lemma lexeme?_append {t text rest : Text} {kind : TokenKind}
    (h : Token.lexeme? t = some (kind, text)) (hrest : Separates kind rest) :
    Token.lexeme? (text ++ rest) = some (kind, text) := by
  cases cutOff_of_lexeme? h with
  | newline others => simp [Token.lexeme?]
  | space others hn hb =>
    rw [List.cons_append, Token.lexeme?, if_neg hn, if_pos hb, takeWhile_append_of_stop hrest]
  | comment others =>
    have hstop : ∀ c ∈ rest.head?, (c != '\n') = false := fun c hc => by simp [hrest c hc]
    rw [List.cons_append, List.cons_append, Token.lexeme?, if_neg (by decide), if_neg (by decide),
      if_pos (by simp), List.takeWhile_cons_of_pos (by decide), takeWhile_append_of_stop hstop]
  | word others hn hb hw =>
    rw [List.cons_append, Token.lexeme?, if_neg hn, if_neg hb,
      if_neg (by simp [ne_slash_of_wordStart hw]), if_pos hw,
      takeWhile_append_of_stop (stops_of_separates_wordKind hrest)]
  | integer others hn hb hw hd =>
    rw [List.cons_append, Token.lexeme?, if_neg hn, if_neg hb,
      if_neg (by simp [ne_slash_of_digit hd]), if_neg hw, if_pos hd, takeWhile_append_of_stop hrest]
  | quoted hn hb hw hd hq htext =>
    rw [List.cons_append, Token.lexeme?, if_neg hn, if_neg hb,
      if_neg (by simp [ne_slash_of_quoteKind hq]), if_neg hw, if_neg hd, hq, (quotedRest?_self htext).2]
    rfl
  | @symbol c s others hn hb hw hd hq hs =>
    obtain ⟨c', tail, htail, hslash⟩ := spelling_cons s
    obtain rfl : c' = c := by
      have hfront := spelling_isFront hs
      rw [htail, List.cons_prefix_cons] at hfront
      exact hfront.1
    have hcomment : ¬(c' = '/' && (tail ++ rest).head? == some '/') = true := by
      intro hh
      obtain ⟨hc, hh⟩ := Bool.and_eq_true_iff.1 hh
      obtain ⟨rfl, rfl⟩ := hslash (by simpa using hc)
      exact hrest.2 rfl (by simpa using hh)
    have hfront := hrest.1
    rw [htail] at hfront ⊢
    rw [List.cons_append] at hfront ⊢
    rw [Token.lexeme?, if_neg hn, if_neg hb, if_neg hcomment, if_neg hw, if_neg hd, hq, hfront, ← htail]
    rfl

lemma separates_nil (kind : TokenKind) : Separates kind [] := by
  cases kind with
  | symbol s => exact ⟨by rw [List.append_nil, atFront?_spelling], by simp⟩
  | _ => simp [Separates]

lemma lexeme?_isFront {t text : Text} {kind : TokenKind} (h : Token.lexeme? t = some (kind, text)) :
    text <+: t ∧ text ≠ [] := by
  have hpre (p : Char → Bool) (c : Char) (others : Text) :
      c :: others.takeWhile p <+: c :: others ∧ c :: others.takeWhile p ≠ [] :=
    ⟨(List.prefix_cons_inj c).2 (List.takeWhile_prefix p), List.cons_ne_nil _ _⟩
  cases cutOff_of_lexeme? h with
  | newline others => simp
  | space others hn hb => exact hpre _ _ _
  | comment others =>
    exact ⟨(List.prefix_cons_inj _).2 (hpre _ _ _).1, List.cons_ne_nil _ _⟩
  | word others hn hb hw => exact hpre _ _ _
  | integer others hn hb hw hd => exact hpre _ _ _
  | quoted hn hb hw hd hq htext =>
    exact ⟨(List.prefix_cons_inj _).2 (quotedRest?_self htext).1, List.cons_ne_nil _ _⟩
  | @symbol c s others hn hb hw hd hq hs =>
    obtain ⟨d, tail, htail, -⟩ := spelling_cons s
    exact ⟨spelling_isFront hs, htail ▸ List.cons_ne_nil d tail⟩

lemma isLexeme_of_lexeme? {t text : Text} {kind : TokenKind}
    (h : Token.lexeme? t = some (kind, text)) : IsLexeme kind text := by
  have := lexeme?_append h (separates_nil kind)
  rwa [List.append_nil] at this

/-- What the tokens of a kind look like. -/
def LexemeShape (kind : TokenKind) (text : Text) : Prop :=
  match kind with
  | .space => ∀ c ∈ text, c ≠ '\n'
  | .newline => text = ['\n']
  | .comment => (∀ c ∈ text, c ≠ '\n') ∧ ∃ tail, text = '/' :: '/' :: tail
  | .keyword k => text = k.spelling
  | .word => (∀ c ∈ text, Token.isWordChar c) ∧ (∃ c tail, text = c :: tail ∧ Token.isWordStart c) ∧
      Keyword.ofWord? text = none
  | .integer => (∀ c ∈ text, Text.isDigit c) ∧ text ≠ []
  | .character => text.head? = some '\''
  | .string => text.head? = some '"' ∨ text.head? = some '\x60'
  | .symbol s => text = s.spelling

lemma ofWord?_spelling {word : Text} {k : Keyword} (h : Keyword.ofWord? word = some k) :
    word = k.spelling := by
  have hk := List.find?_some h
  exact (beq_iff_eq.1 hk).symm

lemma lexemeShape_wordKind {word tail : Text} {c : Char} (hword : word = c :: tail)
    (hc : Token.isWordStart c) (hall : ∀ d ∈ word, Token.isWordChar d) :
    LexemeShape (Token.wordKind word) word := by
  rw [Token.wordKind]
  cases hk : Keyword.ofWord? word with
  | some k => exact ofWord?_spelling hk
  | none => exact ⟨hall, ⟨c, tail, hword, hc⟩, hk⟩

lemma lexemeShape_quoteKind {c : Char} {kind : TokenKind} (h : Token.quoteKind? c = some kind)
    (text : Text) : LexemeShape kind (c :: text) := by
  rw [Token.quoteKind?] at h
  split_ifs at h with hc hs
  · obtain rfl := Option.some.inj h
    exact congrArg some hc
  · obtain rfl := Option.some.inj h
    exact (by simpa using hs : c = '"' ∨ c = '\x60').imp (congrArg some) (congrArg some)

lemma forall_mem_cons_takeWhile {p q : Char → Bool} {c : Char} (rest : Text) (hc : q c = true)
    (hpq : ∀ d, p d = true → q d = true) : ∀ d ∈ c :: rest.takeWhile p, q d = true := by
  intro d hd
  rcases List.mem_cons.1 hd with rfl | hd
  · exact hc
  · exact hpq d (List.mem_takeWhile_imp hd)

lemma lexemeShape_of_lexeme? {t text : Text} {kind : TokenKind}
    (h : Token.lexeme? t = some (kind, text)) : LexemeShape kind text := by
  cases cutOff_of_lexeme? h with
  | newline others => rfl
  | space others hn hb =>
    have hline := forall_mem_cons_takeWhile (p := Token.isSpaceChar) (q := (· != '\n')) others
      (by simpa using hn) (fun d hd => (Bool.and_eq_true_iff.1 hd).1)
    exact fun d hd => by simpa using hline d hd
  | comment others =>
    have hline := forall_mem_cons_takeWhile (p := (· != '\n')) (q := (· != '\n')) ('/' :: others)
      (c := '/') (by decide) (fun d hd => hd)
    exact ⟨fun d hd => by simpa using hline d hd, _, rfl⟩
  | word others hn hb hw =>
    exact lexemeShape_wordKind rfl hw
      (forall_mem_cons_takeWhile others (by simp [Token.isWordChar, hw]) fun d hd => hd)
  | integer others hn hb hw hd =>
    exact ⟨forall_mem_cons_takeWhile others hd fun d hd => hd, List.cons_ne_nil _ _⟩
  | quoted hn hb hw hd hq htext => exact lexemeShape_quoteKind hq _
  | symbol hn hb hw hd hq hs => rfl

lemma IsLexeme.shape {kind : TokenKind} {text : Text} (h : IsLexeme kind text) :
    LexemeShape kind text := lexemeShape_of_lexeme? h

def TokenKind.isFlat : TokenKind → Bool
  | newline => false
  | character => false
  | string => false
  | _ => true

lemma IsLexeme.newline_not_mem {kind : TokenKind} {text : Text} (h : IsLexeme kind text)
    (hk : kind.isFlat = true) : '\n' ∉ text := by
  have hs := h.shape
  cases kind with
  | space => exact fun hm => hs _ hm rfl
  | comment => exact fun hm => hs.1 _ hm rfl
  | keyword k => rw [show text = k.spelling from hs]; cases k <;> decide
  | word => exact fun hm => absurd (hs.1 _ hm) (by decide)
  | integer => exact fun hm => absurd (hs.1 _ hm) (by decide)
  | symbol s => rw [show text = s.spelling from hs]; cases s <;> decide
  | newline => cases hk
  | character => cases hk
  | string => cases hk

lemma IsLexeme.newlines_eq_zero {kind : TokenKind} {text : Text} (h : IsLexeme kind text)
    (hk : kind.isFlat = true) : text.newlines = 0 :=
  List.count_eq_zero.2 (h.newline_not_mem hk)

end Lexemes

section Comments

lemma isLexeme_comment {tail : Text} (h : '\n' ∉ tail) : IsLexeme .comment ('/' :: '/' :: tail) := by
  have hall : ('/' :: tail).takeWhile (· != '\n') = '/' :: tail := by
    rw [List.takeWhile_eq_self_iff]
    intro c hc
    rcases List.mem_cons.1 hc with rfl | hc
    · rfl
    · exact bne_iff_ne.2 fun hn => h (hn ▸ hc)
  rw [IsLexeme, Token.lexeme?, if_neg (by decide), if_neg (by decide), if_pos (by simp), hall]

lemma strip_comment (tail : Text) :
    Text.strip ('/' :: '/' :: tail) =
      '/' :: '/' :: (tail.reverse.dropWhile Text.isStripped).reverse := by
  have hslash : Text.isStripped '/' = false := by decide
  rw [Text.strip, List.dropWhile_cons_of_neg (by simp [hslash])]
  simp only [List.reverse_cons, List.append_assoc, List.dropWhile_append]
  by_cases h : (tail.reverse.dropWhile Text.isStripped).isEmpty = true
  · rw [if_pos h, List.isEmpty_iff.1 h]
    simp [hslash]
  · rw [if_neg h]
    simp

lemma isCommentText_strip {source : Text} (h : IsLexeme .comment source) :
    IsCommentText (Text.strip source) := by
  obtain ⟨hn, tail, rfl⟩ := h.shape
  rw [strip_comment]
  refine ⟨isLexeme_comment fun hm => ?_, ?_⟩
  · have hmem := List.mem_reverse.1 ((List.dropWhile_sublist _).mem (List.mem_reverse.1 hm))
    exact hn '\n' (List.mem_cons_of_mem _ (List.mem_cons_of_mem _ hmem)) rfl
  · rw [strip_comment, List.reverse_reverse, List.dropWhile_idempotent]

end Comments

section Tokens

/-- The tokens start on the given line. Each is a whole token, starts where the one before it stops,
and is a line end if it follows a comment. -/
def Lexed (line : Int) : List Token → Prop
  | [] => True
  | t :: ts =>
    t.start.line = line ∧ IsLexeme t.kind t.text ∧
      (t.kind = .comment → ∀ u ∈ ts.head?, u.kind = .newline) ∧ Lexed (line + t.text.newlines) ts

/-- How many lines end in the tokens. -/
def lineEnds (ts : List Token) : Nat := (ts.map fun t => t.text.newlines).sum

lemma line_after (p : Position) (text : Text) : (p.after text).line = p.line + text.newlines := by
  induction text generalizing p with
  | nil => simp [Position.after, Text.newlines]
  | cons c text ih =>
    have hstep : (p.after (c :: text)) = (p.step c).after text := rfl
    rw [hstep, ih]
    by_cases hc : c = '\n'
    · simp [Position.step, Text.newlines, hc]
      omega
    · simp [Position.step, Text.newlines, hc]

lemma head?_drop_takeWhile (p : Char → Bool) (rest : Text) :
    ∀ c ∈ (rest.drop (rest.takeWhile p).length).head?, p c = false := by
  induction rest with
  | nil => simp
  | cons a rest ih =>
    by_cases ha : p a
    · rw [List.takeWhile_cons_of_pos ha, List.length_cons, List.drop_succ_cons]
      exact ih
    · simp [ha]

lemma lexeme?_comment {t text : Text} (h : Token.lexeme? t = some (.comment, text)) :
    ∀ c ∈ (t.drop text.length).head?, c = '\n' := by
  generalize hkind : TokenKind.comment = kind at h
  cases cutOff_of_lexeme? h with
  | comment others =>
    intro d hd
    rw [List.length_cons, List.length_cons, List.drop_succ_cons, List.drop_succ_cons] at hd
    simpa using head?_drop_takeWhile (· != '\n') others d hd
  | word others hn hb hw =>
    obtain hword | ⟨k, hword⟩ := wordKind_cases (_ :: others.takeWhile Token.isWordChar)
    all_goals rw [hword] at hkind; cases hkind
  | quoted hn hb hw hd hq htext =>
    rw [← hkind, Token.quoteKind?] at hq
    split_ifs at hq <;> cases hq
  | _ => cases hkind

lemma lexeme?_newline (rest : Text) : Token.lexeme? ('\n' :: rest) = some (.newline, ['\n']) := by
  rw [Token.lexeme?, if_pos rfl]

lemma newlines_append (a b : Text) : (a ++ b).newlines = a.newlines + b.newlines :=
  List.count_append

lemma tokenizeWithin_succ {t text : Text} {kind : TokenKind}
    (h : Token.lexeme? t = some (kind, text)) (fuel : Nat) (p : Position) :
    Token.tokenizeWithin (fuel + 1) p t =
      (Token.tokenizeWithin fuel (p.after text) (t.drop text.length)).map (⟨p, kind, text⟩ :: ·) := by
  cases t with
  | nil => cases h
  | cons c t =>
    rw [Token.tokenizeWithin.eq_3 _ _ _ (List.cons_ne_nil c t), h]
    dsimp only
    cases Token.tokenizeWithin fuel (p.after text) ((c :: t).drop text.length) <;> rfl

/-- A property of tokens and their text holds if it does without tokens and with each token that is cut
off in front. -/
lemma tokenizeWithin_induct {motive : Position → Text → List Token → Prop} (nil : ∀ p, motive p [] [])
    (cons : ∀ p kind text rest tokens, Token.lexeme? (text ++ rest) = some (kind, text) →
      motive (p.after text) rest tokens → motive p (text ++ rest) (⟨p, kind, text⟩ :: tokens))
    {fuel : Nat} {p : Position} {t : Text} {tokens : List Token}
    (h : Token.tokenizeWithin fuel p t = .ok tokens) : motive p t tokens := by
  induction fuel, p, t using Token.tokenizeWithin.induct generalizing tokens with
  | case1 fuel p =>
    rw [Token.tokenizeWithin] at h
    obtain rfl := Except.ok.inj h
    exact nil p
  | case2 p c t => rw [Token.tokenizeWithin] at h; cases h
  | case3 fuel p t ht hl =>
    rw [Token.tokenizeWithin.eq_3 _ _ _ ht, hl] at h
    cases h
  | case4 fuel p t ht kind text hl ih =>
    rw [tokenizeWithin_succ hl] at h
    cases hrest : Token.tokenizeWithin fuel (p.after text) (t.drop text.length) with
    | error e => rw [hrest] at h; cases h
    | ok others =>
      rw [hrest] at h
      obtain rfl := Except.ok.inj h
      have hothers := ih hrest
      obtain ⟨rest, rfl⟩ := (lexeme?_isFront hl).1
      rw [List.drop_left] at hothers
      exact cons p kind text rest others hl hothers

lemma lexed_tokenizeWithin {fuel : Nat} {p : Position} {t : Text} {tokens : List Token}
    (h : Token.tokenizeWithin fuel p t = .ok tokens) :
    Lexed p.line tokens ∧ t.newlines = lineEnds tokens ∧
      ((∀ c ∈ t.head?, c = '\n') → ∀ u ∈ tokens.head?, u.kind = .newline) := by
  refine tokenizeWithin_induct (motive := fun p t tokens => Lexed p.line tokens ∧ t.newlines = lineEnds tokens ∧
    ((∀ c ∈ t.head?, c = '\n') → ∀ u ∈ tokens.head?, u.kind = .newline))
    (fun p => ⟨trivial, rfl, by simp⟩) ?_ h
  rintro p kind text rest tokens hl ⟨hlexed, hlines, hhead⟩
  refine ⟨⟨rfl, isLexeme_of_lexeme? hl, ?_, ?_⟩, ?_, ?_⟩
  · intro hk
    obtain rfl : kind = .comment := hk
    exact hhead (by simpa using lexeme?_comment hl)
  · rwa [line_after] at hlexed
  · rw [newlines_append, hlines, lineEnds, lineEnds, List.map_cons, List.sum_cons]
  · rintro hc _ ⟨⟩
    cases text with
    | nil => exact absurd rfl (lexeme?_isFront hl).2
    | cons c text =>
      obtain rfl := hc c rfl
      rw [List.cons_append, lexeme?_newline] at hl
      exact (Prod.mk.inj (Option.some.inj hl)).1.symm

lemma lexed_tokenize {p : Position} {t : Text} {tokens : List Token}
    (h : tokenize p t = .ok tokens) : Lexed p.line tokens := (lexed_tokenizeWithin h).1

end Tokens

end DpLang
