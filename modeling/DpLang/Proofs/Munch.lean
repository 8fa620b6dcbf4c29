import DpLang.Proofs.Scanning
import DpLang.Text.Utf8

/-!
# Longest tokens

The tokens of a text are the text, cut into pieces, each of them at its place. `Admits` tells for
every kind which texts are complete tokens of it. At every place the longest of these texts is cut
off, and a reserved word is not taken for a word; where there is no such text, the cutting fails.
-/

namespace DpLang

section Places

/-- The texts of tokens, one behind the other. -/
def sourceOf (tokens : List Token) : Text := tokens.flatMap Token.text

lemma after_append (p : Position) (a b : Text) : p.after (a ++ b) = (p.after a).after b :=
  List.foldl_append

lemma offset_after (p : Position) (t : Text) :
    (p.after t).offset = p.offset + (Text.encode t).length := by
  induction t generalizing p with
  | nil => simp [Position.after, Text.encode]
  | cons c t ih =>
    have hstep : (p.step c).offset = p.offset + (Text.encodeChar c).length := by
      rw [Text.encodeChar, String.length_utf8EncodeChar, Position.step]
      split <;> rfl
    calc (p.after (c :: t)).offset = ((p.step c).after t).offset := rfl
      _ = p.offset + (Text.encode (c :: t)).length := by
        rw [ih, hstep, Text.encode, Text.encode, List.flatMap_cons, List.length_append]
        omega

/-- The tokens of a text are not empty, they make up the text, and each starts behind the ones in
front of it. -/
lemma tokenizeWithin_covers {fuel : Nat} {p : Position} {t : Text} {tokens : List Token}
    (h : Token.tokenizeWithin fuel p t = .ok tokens) :
    (∀ token ∈ tokens, token.text ≠ []) ∧ sourceOf tokens = t ∧
      ∀ before token others, tokens = before ++ token :: others →
        token.start = p.after (sourceOf before) := by
  refine tokenizeWithin_induct (motive := fun p t tokens => (∀ token ∈ tokens, token.text ≠ []) ∧
    sourceOf tokens = t ∧ ∀ before token others, tokens = before ++ token :: others →
      token.start = p.after (sourceOf before)) (fun p => ⟨by simp, rfl, by simp⟩) ?_ h
  rintro p kind text rest tokens hl ⟨hne, hsource, hplaces⟩
  refine ⟨List.forall_mem_cons.2 ⟨(lexeme?_isFront hl).2, hne⟩, ?_, fun before token behind hsplit => ?_⟩
  · rw [sourceOf, List.flatMap_cons, ← sourceOf, hsource]
  · cases before with
    | nil =>
      obtain ⟨rfl, -⟩ := List.cons.inj hsplit
      rfl
    | cons first before =>
      obtain ⟨rfl, hothers⟩ := List.cons.inj hsplit
      rw [hplaces before token behind hothers, ← after_append]
      rfl

/-- Cutting a text into tokens loses nothing: no token is empty, together they are the text, each
stands behind all those in front of it and so stops where the next one starts, and the last one
stops as many bytes behind the start as the text has. -/
theorem tokenize_lossless {p : Position} {t : Text} {tokens : List Token}
    (h : tokenize p t = .ok tokens) :
    (∀ token ∈ tokens, token.text ≠ []) ∧ sourceOf tokens = t ∧
    (∀ before token others, tokens = before ++ token :: others →
      token.start = p.after (sourceOf before)) ∧
    (∀ before token next others, tokens = before ++ token :: next :: others →
      token.stop = next.start) ∧
    ∀ last, tokens.getLast? = some last → last.stop.offset - p.offset = (Text.encode t).length := by
  obtain ⟨hne, hsource, hplaces⟩ := tokenizeWithin_covers h
  have hstops (before : List Token) (token : Token) (others : List Token)
      (hsplit : tokens = before ++ token :: others) :
      token.stop = p.after (sourceOf (before ++ [token])) := by
    rw [Token.stop, hplaces before token others hsplit, ← after_append]
    simp [sourceOf]
  refine ⟨hne, hsource, hplaces, fun before token next others hsplit => ?_, fun last hlast => ?_⟩
  · have hnext : tokens = (before ++ [token]) ++ next :: others := by rw [hsplit]; simp
    rw [hstops before token _ hsplit, hplaces _ next others hnext]
  · obtain ⟨before, hsplit⟩ := List.getLast?_eq_some_iff.1 hlast
    rw [hstops before last [] hsplit, ← hsplit, hsource, offset_after]
    omega

/-- Two characters of two bytes each, and a line end in a string. -/
theorem tokenize_lossless_lines :
    ∃ tokens, tokenize (.startOf "f") "é = \"\n\" // ß" = .ok tokens ∧
      (∀ token ∈ tokens, token.text ≠ []) ∧ sourceOf tokens = "é = \"\n\" // ß".toList ∧
      (∀ before token others, tokens = before ++ token :: others →
        token.start = (Position.startOf "f").after (sourceOf before)) ∧
      (∀ before token next others, tokens = before ++ token :: next :: others →
        token.stop = next.start) ∧
      ∀ last, tokens.getLast? = some last → last.stop.offset - (Position.startOf "f").offset =
        (Text.encode "é = \"\n\" // ß").length := by
  have hread : (tokenize (.startOf "f") "é = \"\n\" // ß").toOption.isSome := by decide +kernel
  cases ht : tokenize (.startOf "f") "é = \"\n\" // ß" with
  | error e => rw [ht] at hread; cases hread
  | ok tokens => exact ⟨tokens, rfl, tokenize_lossless ht⟩

end Places

section Classes

/-- What may stand between the marks of a literal: a backslash with any character behind it, and
every other character than the mark. -/
inductive QuotedBody (mark : Char) : Text → Prop where
  | nil : QuotedBody mark []
  | escape (c : Char) {body : Text} (rest : QuotedBody mark body) :
      QuotedBody mark ('\\' :: c :: body)
  | plain {c : Char} {body : Text} (hb : c ≠ '\\') (hm : c ≠ mark) (rest : QuotedBody mark body) :
      QuotedBody mark (c :: body)

/-- The text starts with a mark and stops with the next one that has no backslash in front of it. -/
def IsQuoted (mark : Char) (text : Text) : Prop :=
  ∃ body, QuotedBody mark body ∧ text = mark :: body ++ [mark]

/-- The texts that are complete tokens of a kind. -/
def TokenKind.Admits : TokenKind → Text → Prop
  | space, text => text ≠ [] ∧ ∀ c ∈ text, c ≠ '\n' ∧ Text.isBlank c = true
  | newline, text => text = ['\n']
  | comment, text => ∃ tail, text = '/' :: '/' :: tail ∧ '\n' ∉ tail
  | keyword k, text => text = k.spelling
  | word, text => ∃ c tail, text = c :: tail ∧ Token.isWordStart c = true ∧
      ∀ d ∈ tail, Token.isWordChar d = true
  | integer, text => text ≠ [] ∧ ∀ c ∈ text, Text.isDigit c = true
  | character, text => IsQuoted '\'' text
  | string, text => IsQuoted '"' text ∨ IsQuoted '\x60' text
  | symbol s, text => text = s.spelling

end Classes

section Characters

lemma range_of_contains {xs : Text.CodeRanges} {n : Nat} (h : xs.contains n = true) :
    ∃ x ∈ xs, x.1 ≤ n ∧ n ≤ x.2 := by
  induction xs with
  | nil => cases h
  | cons x xs ih =>
    rw [Text.CodeRanges.contains] at h
    split_ifs at h with hlow hhigh
    · exact ⟨x, List.mem_cons_self, by omega, hhigh⟩
    · obtain ⟨y, hy, hn⟩ := ih h
      exact ⟨y, List.mem_cons_of_mem x hy, hn⟩

/-- Does the range lie between those of a list? -/
def Text.CodeRanges.misses : Text.CodeRanges → Nat × Nat → Bool
  | [], _ => true
  | x :: xs, y => if Nat.blt x.2 y.1 then misses xs y else Nat.blt y.2 x.1

lemma contains_of_misses {xs : Text.CodeRanges} {y : Nat × Nat} (h : xs.misses y = true) {n : Nat}
    (hn : y.1 ≤ n ∧ n ≤ y.2) : xs.contains n = false := by
  induction xs with
  | nil => rfl
  | cons x xs ih =>
    rw [Text.CodeRanges.misses] at h
    rw [Text.CodeRanges.contains]
    split_ifs at h with hx
    · have hlt : x.2 < y.1 := by rwa [Nat.blt_eq] at hx
      rw [ih h, if_neg (by omega : ¬n ≤ x.2), ite_self]
    · have hlt : y.2 < x.1 := by rwa [Nat.blt_eq] at h
      rw [if_pos (by omega)]

/-- The code points of the blank characters. -/
def blankRanges : Text.CodeRanges :=
  [(0x09, 0x0D), (0x20, 0x20), (0x85, 0x85), (0xA0, 0xA0), (0x1680, 0x1680), (0x2000, 0x200A),
   (0x2028, 0x2029), (0x202F, 0x202F), (0x205F, 0x205F), (0x3000, 0x3000)]

lemma range_of_blank {c : Char} (h : Text.isBlank c = true) :
    ∃ x ∈ blankRanges, x.1 ≤ c.toNat ∧ c.toNat ≤ x.2 := by
  simp only [Text.isBlank, Bool.or_eq_true, Bool.and_eq_true, decide_eq_true_eq, beq_iff_eq] at h
  simp only [blankRanges, List.exists_mem_cons_iff, List.not_mem_nil, false_and, exists_false, or_false]
  omega

lemma not_blank_of_wordChar {c : Char} (h : Token.isWordChar c = true) : Text.isBlank c = false := by
  refine Bool.eq_false_iff.2 fun hb => ?_
  obtain ⟨x, hx, hn⟩ := range_of_blank hb
  have hletters : blankRanges.all Text.letterRanges.misses = true := by decide +kernel
  have hdigits : blankRanges.all Text.digitRanges.misses = true := by decide +kernel
  have hletter : Text.isLetter c = false := contains_of_misses (List.all_eq_true.1 hletters x hx) hn
  have hdigit : Text.isDigit c = false := contains_of_misses (List.all_eq_true.1 hdigits x hx) hn
  have hline : c ≠ '_' := by
    rintro rfl
    cases hb
  simp [Token.isWordChar, Token.isWordStart, hletter, hdigit, hline] at h

lemma not_wordStart_of_digit {c : Char} (h : Text.isDigit c = true) : Token.isWordStart c = false := by
  obtain ⟨x, hx, hn⟩ := range_of_contains h
  have hletters : Text.digitRanges.all Text.letterRanges.misses = true := by decide +kernel
  have hletter : Text.isLetter c = false := contains_of_misses (List.all_eq_true.1 hletters x hx) hn
  have hline : c ≠ '_' := by
    rintro rfl
    revert h
    decide
  simp [Token.isWordStart, hletter, hline]

end Characters

section Fronts

variable {c mark : Char} {kind : TokenKind} {text rest : Text}

lemma lexeme?_wordStart (hc : Token.isWordStart c = true) (rest : Text) :
    Token.lexeme? (c :: rest) =
      some (Token.wordKind (c :: rest.takeWhile Token.isWordChar), c :: rest.takeWhile Token.isWordChar) := by
  have hblank : Text.isBlank c = false := not_blank_of_wordChar (by simp [Token.isWordChar, hc])
  have hline : c ≠ '\n' := by
    rintro rfl
    cases hblank
  rw [Token.lexeme?, if_neg hline, if_neg (by simp [hblank]), if_neg (by simp [ne_slash_of_wordStart hc]),
    if_pos hc]

lemma lexeme?_digit (hc : Text.isDigit c = true) (rest : Text) :
    Token.lexeme? (c :: rest) = some (.integer, c :: rest.takeWhile Text.isDigit) := by
  have hblank : Text.isBlank c = false := not_blank_of_wordChar (by simp [Token.isWordChar, hc])
  have hline : c ≠ '\n' := by
    rintro rfl
    cases hblank
  rw [Token.lexeme?, if_neg hline, if_neg (by simp [hblank]), if_neg (by simp [ne_slash_of_digit hc]),
    if_neg (by simp [not_wordStart_of_digit hc]), if_pos hc]

lemma lexeme?_slashes (rest : Text) :
    Token.lexeme? ('/' :: '/' :: rest) = some (.comment, '/' :: '/' :: rest.takeWhile (· != '\n')) := by
  rw [Token.lexeme?, if_neg (by decide), if_neg (by decide), if_pos (by simp),
    List.takeWhile_cons_of_pos (by decide)]

lemma quotedRest?_of_body (hm : mark ≠ '\\') {body : Text} (h : QuotedBody mark body) (rest : Text) :
    Token.quotedRest? mark (body ++ mark :: rest) = some (body ++ [mark]) := by
  induction h with
  | nil => exact quotedRest?_mark hm rest
  | escape c _ ih =>
    rw [List.cons_append, List.cons_append, quotedRest?_escape, ih]
    rfl
  | plain hb hm _ ih =>
    rw [List.cons_append, quotedRest?_other hb hm, ih]
    rfl

lemma quotedBody_of_rest {text : Text} (h : Token.quotedRest? mark rest = some text) :
    ∃ body, QuotedBody mark body ∧ text = body ++ [mark] := by
  induction rest using Token.quotedRest?.induct mark generalizing text with
  | case1 => cases h
  | case2 => cases h
  | case3 escaped rest ih =>
    rw [quotedRest?_escape] at h
    obtain ⟨inner, hinner, rfl⟩ := Option.map_eq_some_iff.1 h
    obtain ⟨body, hbody, rfl⟩ := ih hinner
    exact ⟨_, .escape escaped hbody, rfl⟩
  | case4 rest hc =>
    rw [quotedRest?_mark hc] at h
    exact ⟨[], .nil, (Option.some.inj h).symm⟩
  | case5 c rest hc hm ih =>
    rw [quotedRest?_other hc hm] at h
    obtain ⟨inner, hinner, rfl⟩ := Option.map_eq_some_iff.1 h
    obtain ⟨body, hbody, rfl⟩ := ih hinner
    exact ⟨_, .plain hc hm hbody, rfl⟩

lemma quoteKind?_cases (h : Token.quoteKind? mark = some kind) :
    mark = '\'' ∧ kind = .character ∨ (mark = '"' ∨ mark = '\x60') ∧ kind = .string := by
  rw [Token.quoteKind?] at h
  split_ifs at h with hc hs
  · exact .inl ⟨hc, (Option.some.inj h).symm⟩
  · exact .inr ⟨by simpa using hs, (Option.some.inj h).symm⟩

lemma lexeme?_quoted (hk : Token.quoteKind? mark = some kind) (h : IsQuoted mark text) (rest : Text) :
    Token.lexeme? (text ++ rest) = some (kind, text) := by
  have hmark : mark ≠ '\n' ∧ Text.isBlank mark = false ∧ mark ≠ '/' ∧ Token.isWordStart mark = false ∧
      Text.isDigit mark = false ∧ mark ≠ '\\' := by
    rcases quoteKind?_cases hk with ⟨rfl, -⟩ | ⟨rfl | rfl, -⟩ <;> decide
  obtain ⟨hline, hblank, hslash, hword, hdigit, hback⟩ := hmark
  obtain ⟨body, hbody, rfl⟩ := h
  have hrest : (mark :: body ++ [mark]) ++ rest = mark :: (body ++ mark :: rest) := by simp
  rw [hrest, Token.lexeme?, if_neg hline, if_neg (by simp [hblank]), if_neg (by simp [hslash]),
    if_neg (by simp [hword]), if_neg (by simp [hdigit]), hk]
  dsimp only
  rw [quotedRest?_of_body hback hbody]
  rfl

lemma lexeme?_symbolStart {s : Symbol} {tail : Text} (hs : s.spelling = c :: tail) (rest : Text)
    (h : ¬(c = '/' ∧ rest.head? = some '/')) :
    Token.lexeme? (c :: rest) =
      (Symbol.atFront? (c :: rest)).map fun s => (.symbol s, s.spelling) := by
  have hc : c ≠ '\n' ∧ Text.isBlank c = false ∧ Token.isWordStart c = false ∧
      Text.isDigit c = false ∧ Token.quoteKind? c = none := by
    cases s <;> (obtain ⟨rfl, -⟩ := List.cons.inj hs; decide)
  obtain ⟨hline, hblank, hword, hdigit, hquote⟩ := hc
  rw [Token.lexeme?, if_neg hline, if_neg (by simp [hblank]), if_neg (by simpa using h),
    if_neg (by simp [hword]), if_neg (by simp [hdigit]), hquote]

/-- No symbol stands in the list in front of one that it starts. -/
lemma symbols_pairwise : Symbol.all.Pairwise fun s t => ¬s.spelling <+: t.spelling := by decide

lemma atFront?_longest {s : Symbol} (h : s.spelling <+: text) :
    ∃ t, Symbol.atFront? text = some t ∧ s.spelling.length ≤ t.spelling.length := by
  have hfound : (Symbol.atFront? text).isSome := by
    rw [Symbol.atFront?, List.find?_isSome]
    exact ⟨s, mem_all s, List.isPrefixOf_iff_prefix.2 h⟩
  obtain ⟨t, ht⟩ := Option.isSome_iff_exists.1 hfound
  refine ⟨t, ht, ?_⟩
  obtain ⟨-, before, behind, hall, hbefore⟩ := List.find?_eq_some_iff_append.1 ht
  have hmem := mem_all s
  have hpair := symbols_pairwise
  rw [hall] at hmem hpair
  rcases List.mem_append.1 hmem with hs | hs
  · have := hbefore s hs
    rw [List.isPrefixOf_iff_prefix.2 h] at this
    cases this
  rcases List.mem_cons.1 hs with rfl | hs
  · exact le_rfl
  · have hnot := (List.pairwise_cons.1 (List.pairwise_append.1 hpair).2.1).1 s hs
    by_contra hlength
    exact hnot (List.prefix_of_prefix_length_le (spelling_isFront ht) h (by omega))

end Fronts

section Longest

variable {kind : TokenKind} {text t : Text}

lemma length_le_takeWhile {p : Char → Bool} {tail : Text} (h : ∀ c ∈ tail, p c = true) (rest : Text) :
    tail.length ≤ ((tail ++ rest).takeWhile p).length := by
  rw [List.takeWhile_append_of_pos h, List.length_append]
  omega

lemma keyword_isWord (k : Keyword) : TokenKind.word.Admits k.spelling := by
  cases k <;> exact ⟨_, _, rfl, rfl, List.all_eq_true.1 rfl⟩

lemma admits_wordKind {word : Text} (h : TokenKind.word.Admits word) :
    (Token.wordKind word).Admits word := by
  rw [Token.wordKind]
  cases hk : Keyword.ofWord? word with
  | some k => exact ofWord?_spelling hk
  | none => exact h

lemma admits_of_lexeme? (h : Token.lexeme? t = some (kind, text)) : kind.Admits text := by
  cases cutOff_of_lexeme? h with
  | newline others => rfl
  | @space c others hn hb =>
    have hc : Token.isSpaceChar c = true := by simp [Token.isSpaceChar, hn, hb]
    have hall := forall_mem_cons_takeWhile others hc fun d hd => hd
    refine ⟨List.cons_ne_nil _ _, fun d hd => ?_⟩
    obtain ⟨hline, hblank⟩ := Bool.and_eq_true_iff.1 (hall d hd)
    exact ⟨by simpa using hline, hblank⟩
  | comment others => exact ⟨_, rfl, fun hm => absurd (List.mem_takeWhile_imp hm) (by decide)⟩
  | word others hn hb hw =>
    exact admits_wordKind ⟨_, _, rfl, hw, fun d hd => List.mem_takeWhile_imp hd⟩
  | integer others hn hb hw hd =>
    exact ⟨List.cons_ne_nil _ _, forall_mem_cons_takeWhile others hd fun d hd => hd⟩
  | quoted hn hb hw hd hq htext =>
    obtain ⟨body, hbody, rfl⟩ := quotedBody_of_rest htext
    rcases quoteKind?_cases hq with ⟨rfl, rfl⟩ | ⟨rfl | rfl, rfl⟩
    · exact ⟨body, hbody, rfl⟩
    · exact .inl ⟨body, hbody, rfl⟩
    · exact .inr ⟨body, hbody, rfl⟩
  | symbol hn hb hw hd hq hs => rfl

/-- The token is a word that is no reserved one, or no word at all. -/
def IsUnreserved (kind : TokenKind) (text : Text) : Prop :=
  kind = .word → ∀ k : Keyword, text ≠ k.spelling

lemma wordKind_of_unreserved {word : Text} (h : IsUnreserved .word word) :
    Token.wordKind word = .word := by
  rw [Token.wordKind]
  cases hk : Keyword.ofWord? word with
  | some k => exact absurd (ofWord?_spelling hk) (h rfl k)
  | none => rfl

lemma wordKind_spelling (k : Keyword) : Token.wordKind k.spelling = .keyword k := by
  cases k <;> decide

/-- The token `found` is at least as long as the text, and if it is the text, it is of the kind. -/
def Covers (kind : TokenKind) (text : Text) (found : Piece) : Prop :=
  text.length ≤ found.2.length ∧ (found.2 = text → IsUnreserved kind text → found.1 = kind)

/-- Where a complete token stands at the front of a text, one at least as long is cut off. -/
lemma lexeme?_of_admits (h : kind.Admits text) (rest : Text) :
    ∃ found, Token.lexeme? (text ++ rest) = some found ∧ Covers kind text found := by
  have hquoted {mark : Char} (hk : Token.quoteKind? mark = some kind) (h : IsQuoted mark text) :
      ∃ found, Token.lexeme? (text ++ rest) = some found ∧ Covers kind text found :=
    ⟨_, lexeme?_quoted hk h rest, le_rfl, fun _ _ => rfl⟩
  cases kind with
  | space =>
    obtain ⟨hne, hall⟩ := h
    cases text with
    | nil => exact absurd rfl hne
    | cons c tail =>
      have hspace : ∀ d ∈ c :: tail, Token.isSpaceChar d = true := fun d hd => by
        simp [Token.isSpaceChar, hall d hd]
      rw [List.forall_mem_cons] at hspace
      exact ⟨_, lexeme?_of_blank hspace.1 (tail ++ rest),
        Nat.succ_le_succ (length_le_takeWhile hspace.2 rest), fun _ _ => rfl⟩
  | newline =>
    obtain rfl : text = ['\n'] := h
    exact ⟨_, lexeme?_newline rest, le_rfl, fun _ _ => rfl⟩
  | comment =>
    obtain ⟨tail, rfl, hline⟩ := h
    have htail : ∀ c ∈ tail, (c != '\n') = true := fun c hc => bne_iff_ne.2 fun hn => hline (hn ▸ hc)
    exact ⟨_, lexeme?_slashes (tail ++ rest),
      Nat.succ_le_succ (Nat.succ_le_succ (length_le_takeWhile htail rest)), fun _ _ => rfl⟩
  | keyword k =>
    obtain rfl : text = k.spelling := h
    obtain ⟨c, tail, hk, hc, htail⟩ := keyword_isWord k
    have hlexeme := lexeme?_wordStart hc (tail ++ rest)
    rw [← List.cons_append, ← hk] at hlexeme
    refine ⟨_, hlexeme, ?_, fun hsame _ => ?_⟩
    · rw [hk]
      exact Nat.succ_le_succ (length_le_takeWhile htail rest)
    · exact (congrArg Token.wordKind hsame).trans (wordKind_spelling k)
  | word =>
    obtain ⟨c, tail, rfl, hc, htail⟩ := h
    exact ⟨_, lexeme?_wordStart hc (tail ++ rest), Nat.succ_le_succ (length_le_takeWhile htail rest),
      fun hsame hword => (congrArg Token.wordKind hsame).trans (wordKind_of_unreserved hword)⟩
  | integer =>
    obtain ⟨hne, hall⟩ := h
    cases text with
    | nil => exact absurd rfl hne
    | cons c tail =>
      rw [List.forall_mem_cons] at hall
      exact ⟨_, lexeme?_digit hall.1 (tail ++ rest),
        Nat.succ_le_succ (length_le_takeWhile hall.2 rest), fun _ _ => rfl⟩
  | character => exact hquoted rfl h
  | string => exact h.elim (hquoted rfl) (hquoted rfl)
  | symbol s =>
    obtain rfl : text = s.spelling := h
    obtain ⟨c, tail, hs, hslash⟩ := spelling_cons s
    by_cases hcomment : c = '/' ∧ (tail ++ rest).head? = some '/'
    · -- a slash in front of another one belongs to a comment
      obtain ⟨rfl, hhead⟩ := hcomment
      obtain ⟨rfl, rfl⟩ := hslash rfl
      cases rest with
      | nil => cases hhead
      | cons d rest =>
        obtain rfl : d = '/' := Option.some.inj hhead
        exact ⟨_, lexeme?_slashes rest, by simp [Symbol.spelling], nofun⟩
    · obtain ⟨found, hfound, hlength⟩ := atFront?_longest (List.prefix_append s.spelling rest)
      have hlexeme := lexeme?_symbolStart hs (tail ++ rest) hcomment
      rw [← List.cons_append, ← hs, hfound] at hlexeme
      refine ⟨(.symbol found, found.spelling), hlexeme, hlength, fun hsame _ => ?_⟩
      have hsame : found.spelling = s.spelling := hsame
      have hfound := atFront?_spelling found
      rw [hsame, atFront?_spelling] at hfound
      exact congrArg TokenKind.symbol (Option.some.inj hfound).symm

/-- The token at the front of a text is the longest complete token there, and not a word if it is
reserved. -/
structure IsLongest (t : Text) (kind : TokenKind) (text : Text) : Prop where
  admits : kind.Admits text
  front : text <+: t
  longest : ∀ kind' text', TokenKind.Admits kind' text' → text' <+: t → text'.length ≤ text.length
  unreserved : IsUnreserved kind text

lemma unreserved_of_lexeme? (h : Token.lexeme? t = some (kind, text)) : IsUnreserved kind text := by
  rintro rfl k rfl
  have hnone := (isLexeme_of_lexeme? h).shape.2.2
  have hsome : Keyword.ofWord? k.spelling = some k := by cases k <;> decide
  rw [hsome] at hnone
  cases hnone

lemma lexeme?_eq_some_iff : Token.lexeme? t = some (kind, text) ↔ IsLongest t kind text := by
  refine ⟨fun h => ⟨admits_of_lexeme? h, (lexeme?_isFront h).1, ?_, unreserved_of_lexeme? h⟩, fun h => ?_⟩
  · rintro kind' text' hadmits ⟨rest, rfl⟩
    obtain ⟨found, hfound, hlength, -⟩ := lexeme?_of_admits hadmits rest
    rw [h] at hfound
    obtain rfl := Option.some.inj hfound
    exact hlength
  · obtain ⟨rest, rfl⟩ := h.front
    obtain ⟨⟨kind', text'⟩, hfound, hlength, hkind⟩ := lexeme?_of_admits h.admits rest
    have hlonger := h.longest kind' text' (admits_of_lexeme? hfound) (lexeme?_isFront hfound).1
    have hsame : text' = text :=
      (List.prefix_of_prefix_length_le (lexeme?_isFront hfound).1 h.front hlonger).eq_of_length
        (Nat.le_antisymm hlonger hlength)
    have hkind : kind' = kind := hkind hsame h.unreserved
    rw [hfound, hkind, hsame]

lemma lexeme?_eq_none_iff :
    Token.lexeme? t = none ↔ ∀ kind text, TokenKind.Admits kind text → ¬text <+: t := by
  constructor
  · rintro h kind text hadmits ⟨rest, rfl⟩
    obtain ⟨found, hfound, -⟩ := lexeme?_of_admits hadmits rest
    rw [h] at hfound
    cases hfound
  · intro h
    cases hfound : Token.lexeme? t with
    | none => rfl
    | some found => exact absurd (lexeme?_isFront hfound).1 (h _ _ (admits_of_lexeme? hfound))

end Longest

section Munching

/-- Cutting the longest token off the front again and again leads from a text over tokens to the
rest of the text. -/
inductive Munch : Text → List Piece → Text → Prop where
  | stop (t : Text) : Munch t [] t
  | step {kind : TokenKind} {text t rest : Text} {pieces : List Piece}
      (longest : IsLongest (text ++ t) kind text) (others : Munch t pieces rest) :
      Munch (text ++ t) ((kind, text) :: pieces) rest

/-- The kinds and texts of tokens. -/
def allPieces (tokens : List Token) : List Piece := tokens.map fun token => (token.kind, token.text)

/-- The outcome of cutting a text: its tokens, or the illegal token at the first place where no
complete token starts. -/
lemma tokenizeWithin_munch {fuel : Nat} {t : Text} (hfuel : t.length ≤ fuel) (p : Position) :
    (∃ tokens, Token.tokenizeWithin fuel p t = .ok tokens ∧ Munch t (allPieces tokens) []) ∨
    ∃ pieces rest, Munch t pieces rest ∧ rest ≠ [] ∧ Token.lexeme? rest = none ∧
      Token.tokenizeWithin fuel p t =
        .error (.ofFault (p.after (pieces.flatMap Prod.snd)) .illegalToken) := by
  induction fuel, p, t using Token.tokenizeWithin.induct with
  | case1 fuel p => exact .inl ⟨[], by rw [Token.tokenizeWithin], .stop []⟩
  | case2 p c t => simp at hfuel
  | case3 fuel p t ht hl =>
    refine .inr ⟨[], t, .stop t, ht, hl, ?_⟩
    rw [Token.tokenizeWithin.eq_3 _ _ _ ht, hl]
    rfl
  | case4 fuel p t ht kind text hl ih =>
    have hlongest := lexeme?_eq_some_iff.1 hl
    have hlength := List.length_pos_iff.2 (lexeme?_isFront hl).2
    have hrun := tokenizeWithin_succ hl fuel p
    obtain ⟨behind, rfl⟩ := hlongest.front
    rw [List.drop_left] at ih hrun
    rw [List.length_append] at hfuel
    rcases ih (by omega) with ⟨tokens, hok, hmunch⟩ | ⟨pieces, rest, hmunch, hne, hnone, herror⟩
    · rw [hok] at hrun
      exact .inl ⟨_, hrun, .step hlongest hmunch⟩
    · rw [herror] at hrun
      refine .inr ⟨_, rest, .step hlongest hmunch, hne, hnone, ?_⟩
      rw [hrun, List.flatMap_cons, after_append]
      rfl

lemma Munch.unique {t rest rest' : Text} {pieces pieces' : List Piece} (h : Munch t pieces rest)
    (h' : Munch t pieces' rest') (hrest : Token.lexeme? rest = none)
    (hrest' : Token.lexeme? rest' = none) : pieces = pieces' ∧ rest = rest' := by
  induction h generalizing pieces' rest' with
  | stop t =>
    cases h' with
    | stop => exact ⟨rfl, rfl⟩
    | step longest others => rw [lexeme?_eq_some_iff.2 longest] at hrest; cases hrest
  | @step kind text t rest pieces longest others ih =>
    generalize hall : text ++ t = all at h'
    cases h' with
    | stop => rw [← hall, lexeme?_eq_some_iff.2 longest] at hrest'; cases hrest'
    | @step kind' text' t' _ pieces' longest' others' =>
      have hsame := lexeme?_eq_some_iff.2 longest
      rw [hall, lexeme?_eq_some_iff.2 longest'] at hsame
      obtain ⟨rfl, rfl⟩ := Prod.mk.inj (Option.some.inj hsame)
      obtain rfl := List.append_cancel_left hall
      obtain ⟨rfl, rfl⟩ := ih others' hrest hrest'
      exact ⟨rfl, rfl⟩

/-- Cutting a text into tokens is maximal munch: the tokens are the ones that come from cutting off
the longest complete token again and again, and the cutting fails exactly if this leads to a place
where no complete token starts, with an illegal token there. -/
theorem tokenize_maximal_munch (p : Position) (t : Text) :
    (∀ pieces, (∃ tokens, tokenize p t = .ok tokens ∧ allPieces tokens = pieces) ↔
      Munch t pieces []) ∧
    ∀ report, tokenize p t = .error report ↔
      ∃ pieces rest, Munch t pieces rest ∧ rest ≠ [] ∧
        (∀ kind text, TokenKind.Admits kind text → ¬text <+: rest) ∧
        report = .ofFault (p.after (pieces.flatMap Prod.snd)) .illegalToken := by
  have hnil : Token.lexeme? [] = none := rfl
  refine ⟨fun pieces => ⟨?_, fun h => ?_⟩, fun report => ⟨fun h => ?_, ?_⟩⟩
  · rintro ⟨tokens, hok, rfl⟩
    rcases tokenizeWithin_munch le_rfl p with ⟨tokens', hok', hmunch⟩ | ⟨_, _, _, _, _, herror⟩
    · rw [tokenize, hok'] at hok
      obtain rfl := Except.ok.inj hok
      exact hmunch
    · rw [tokenize, herror] at hok
      cases hok
  · rcases tokenizeWithin_munch le_rfl p with ⟨tokens, hok, hmunch⟩ | ⟨_, rest, hmunch, hne, hnone, _⟩
    · exact ⟨tokens, hok, (hmunch.unique h hnil hnil).1⟩
    · exact absurd (hmunch.unique h hnone hnil).2 hne
  · rcases tokenizeWithin_munch le_rfl p with ⟨tokens, hok, _⟩ | ⟨pieces, rest, hmunch, hne, hnone, herror⟩
    · rw [tokenize, hok] at h
      cases h
    · rw [tokenize, herror] at h
      exact ⟨pieces, rest, hmunch, hne, lexeme?_eq_none_iff.1 hnone, (Except.error.inj h).symm⟩
  · rintro ⟨pieces, rest, hmunch, hne, hstuck, rfl⟩
    have hnone := lexeme?_eq_none_iff.2 hstuck
    rcases tokenizeWithin_munch le_rfl p with ⟨tokens, _, hdone⟩ | ⟨pieces', rest', hmunch', _, hnone', herror⟩
    · exact absurd (hmunch.unique hdone hnone hnil).2 hne
    · rw [tokenize, herror, (hmunch.unique hmunch' hnone hnone').1]

end Munching

end DpLang
