import DpLang.Proofs.Lexing

/-!
# Texts that spell tokens

A text is put together from pieces, each of which is a token, and blanks between them. `Spells` says
which pieces a text is made of and which of them is still open at its end: whatever is written next
must not run together with it. A text that spells pieces is cut into exactly these tokens.
-/

namespace DpLang

/-- A token by its kind and text. -/
abbrev Piece := TokenKind × Text

/-- A text is made of blanks and of the given pieces, each of them as long as it can be. -/
inductive Scan : Text → List Piece → Prop where
  | nil : Scan [] []
  | blank {c : Char} {rest : Text} {pieces : List Piece} (blank : Token.isSpaceChar c = true)
      (scan : Scan rest pieces) : Scan (c :: rest) pieces
  | piece {kind : TokenKind} {text rest : Text} {pieces : List Piece} (lexeme : IsLexeme kind text)
      (visible : kind ≠ .space) (apart : Separates kind rest) (scan : Scan rest pieces) :
      Scan (text ++ rest) ((kind, text) :: pieces)

section Tokens

/-- The kinds and texts of the tokens that are not blank. -/
def piecesOf (tokens : List Token) : List Piece :=
  (tokens.filter (!·.isSpace)).map fun t => (t.kind, t.text)

lemma lexeme?_of_blank {c : Char} (h : Token.isSpaceChar c = true) (rest : Text) :
    Token.lexeme? (c :: rest) = some (.space, c :: rest.takeWhile Token.isSpaceChar) := by
  obtain ⟨hn, hb⟩ := Bool.and_eq_true_iff.1 h
  rw [Token.lexeme?, if_neg (by simpa using hn), if_pos hb]

lemma IsLexeme.head_not_blank {kind : TokenKind} {c : Char} {text : Text}
    (h : IsLexeme kind (c :: text)) (hk : kind ≠ .space) : Token.isSpaceChar c = false := by
  cases hc : Token.isSpaceChar c with
  | false => rfl
  | true =>
    rw [IsLexeme, lexeme?_of_blank hc] at h
    exact absurd (congrArg Prod.fst (Option.some.inj h)).symm hk

lemma IsLexeme.ne_nil {kind : TokenKind} {text : Text} (h : IsLexeme kind text) : text ≠ [] :=
  (lexeme?_isFront h).2

lemma Scan.of_blank {c : Char} {rest : Text} {pieces : List Piece} (h : Scan (c :: rest) pieces)
    (hc : Token.isSpaceChar c = true) : Scan rest pieces := by
  generalize ht : c :: rest = t at h
  cases h with
  | nil => cases ht
  | blank blank scan =>
    obtain ⟨rfl, rfl⟩ := List.cons.inj ht
    exact scan
  | @piece kind text rest' pieces lexeme visible apart scan =>
    cases text with
    | nil => exact absurd rfl lexeme.ne_nil
    | cons d text =>
      obtain ⟨rfl, -⟩ := List.cons.inj ht
      rw [lexeme.head_not_blank visible] at hc
      cases hc

lemma Scan.dropWhile_blank {text : Text} {pieces : List Piece} (h : Scan text pieces) :
    Scan (text.dropWhile Token.isSpaceChar) pieces := by
  induction text with
  | nil => exact h
  | cons c text ih =>
    by_cases hc : Token.isSpaceChar c = true
    · rw [List.dropWhile_cons_of_pos hc]
      exact ih (h.of_blank hc)
    · rw [List.dropWhile_cons_of_neg hc]
      exact h

lemma Scan.eq_nil {pieces : List Piece} (h : Scan [] pieces) : pieces = [] := by
  generalize ht : ([] : Text) = t at h
  cases h with
  | nil => rfl
  | blank blank scan => cases ht
  | piece lexeme visible apart scan => exact absurd (List.append_eq_nil_iff.mp ht.symm).1 lexeme.ne_nil

lemma piecesOf_cons (t : Token) (tokens : List Token) :
    piecesOf (t :: tokens) =
      (if t.kind = .space then [] else [(t.kind, t.text)]) ++ piecesOf tokens := by
  by_cases h : t.kind = .space
  · rw [if_pos h, piecesOf, List.filter_cons_of_neg (by simp [Token.isSpace, h])]
    rfl
  · rw [if_neg h, piecesOf, List.filter_cons_of_pos (by simp [Token.isSpace, h])]
    rfl

lemma tokenizeWithin_of_scan {fuel : Nat} {text : Text} {pieces : List Piece} (h : Scan text pieces)
    (hfuel : text.length ≤ fuel) (p : Position) :
    ∃ tokens, Token.tokenizeWithin fuel p text = .ok tokens ∧ piecesOf tokens = pieces := by
  induction fuel generalizing text pieces p with
  | zero =>
    obtain rfl : text = [] := List.length_eq_zero_iff.mp (by omega)
    exact ⟨[], rfl, h.eq_nil.symm⟩
  | succ fuel ih =>
    cases h with
    | nil => exact ⟨[], rfl, rfl⟩
    | @blank c rest pieces blank scan =>
      have hdrop : (c :: rest).drop (c :: rest.takeWhile Token.isSpaceChar).length =
          rest.dropWhile Token.isSpaceChar := by
        rw [List.length_cons, List.drop_succ_cons]
        calc rest.drop (rest.takeWhile Token.isSpaceChar).length
            = (rest.takeWhile Token.isSpaceChar ++ rest.dropWhile Token.isSpaceChar).drop
                (rest.takeWhile Token.isSpaceChar).length := by rw [List.takeWhile_append_dropWhile]
          _ = rest.dropWhile Token.isSpaceChar := List.drop_left
      have hlength : (rest.dropWhile Token.isSpaceChar).length ≤ rest.length :=
        (List.dropWhile_sublist _).length_le
      rw [List.length_cons] at hfuel
      obtain ⟨tokens, htokens, hpieces⟩ := ih scan.dropWhile_blank (by omega)
        (p.after (c :: rest.takeWhile Token.isSpaceChar))
      refine ⟨⟨p, .space, c :: rest.takeWhile Token.isSpaceChar⟩ :: tokens, ?_,
        (piecesOf_cons _ tokens).trans hpieces⟩
      rw [tokenizeWithin_succ (lexeme?_of_blank blank rest), hdrop, htokens]
      rfl
    | @piece kind text rest pieces lexeme visible apart scan =>
      have hlength := List.length_pos_iff.mpr lexeme.ne_nil
      rw [List.length_append] at hfuel
      obtain ⟨tokens, htokens, hpieces⟩ := ih scan (by omega) (p.after text)
      refine ⟨_, ?_, (piecesOf_cons ⟨p, kind, text⟩ tokens).trans ?_⟩
      · rw [tokenizeWithin_succ (lexeme?_append lexeme apart), List.drop_left, htokens]
        rfl
      · rw [if_neg visible, hpieces]
        rfl

lemma tokenize_of_scan {text : Text} {pieces : List Piece} (h : Scan text pieces) (p : Position) :
    ∃ tokens, tokenize p text = .ok tokens ∧ piecesOf tokens = pieces :=
  tokenizeWithin_of_scan h le_rfl p

end Tokens

section Pieces

/-- What may be written right behind a piece of the kind, if there is one. -/
def Follows (last : Option TokenKind) (c : Char) : Prop :=
  ∀ kind ∈ last, ∀ rest, Separates kind (c :: rest)

/-- A text is made of pieces, and `last` is the kind of the piece that is open at its end. -/
structure Spells (text : Text) (pieces : List Piece) (last : Option TokenKind) : Prop where
  scans : ∀ rest more, (∀ kind ∈ last, Separates kind rest) → Scan rest more →
    Scan (text ++ rest) (pieces ++ more)
  ends : ∀ s, last = some (.symbol s) → text.getLast? = s.spelling.getLast?

variable {text t : Text} {pieces more : List Piece} {last next : Option TokenKind} {kind : TokenKind}

lemma spells_nil : Spells [] [] none := ⟨fun _ _ _ h => h, by simp⟩

lemma spells_piece (h : IsLexeme kind text) (hk : kind ≠ .space) :
    Spells text [(kind, text)] (some kind) where
  scans _ _ hrest hscan := .piece h hk (hrest kind rfl) hscan
  ends s hs := by
    obtain rfl := Option.some.inj hs
    rw [show text = s.spelling from h.shape]

lemma spells_blanks (h : ∀ c ∈ text, Token.isSpaceChar c = true) : Spells text [] none where
  scans rest more _ hscan := by
    induction text with
    | nil => exact hscan
    | cons c text ih =>
      rw [List.forall_mem_cons] at h
      exact .blank h.1 (ih h.2)
  ends s hs := by cases hs

lemma Spells.append (h : Spells text pieces last) (ht : Spells t more next)
    (hempty : t = [] → last = none) (hhead : ∀ c ∈ t.head?, Follows last c) :
    Spells (text ++ t) (pieces ++ more) next where
  scans rest others hrest hscan := by
    rw [List.append_assoc, List.append_assoc]
    refine h.scans _ _ (fun kind hkind => ?_) (ht.scans rest others hrest hscan)
    cases t with
    | nil => rw [hempty rfl] at hkind; cases hkind
    | cons c t => exact hhead c rfl kind hkind (t ++ rest)
  ends s hs := by
    rw [List.getLast?_append, ht.ends s hs]
    cases s <;> rfl

lemma Spells.scan (h : Spells text pieces last) : Scan text pieces := by
  have := h.scans [] [] (fun kind _ => separates_nil kind) .nil
  rwa [List.append_nil, List.append_nil] at this

lemma follows_none (c : Char) : Follows none c := by simp [Follows]

lemma follows_some (c : Char) : Follows (some kind) c ↔ ∀ rest, Separates kind (c :: rest) := by
  simp [Follows]

/-- Does a character right behind a symbol make another symbol or a comment of it? -/
def Symbol.joins (s : Symbol) (c : Char) : Bool :=
  (Symbol.all.any fun other => other.spelling == s.spelling ++ [c]) || (s == .slash && c == '/')

lemma spelling_length (s : Symbol) : 1 ≤ s.spelling.length ∧ s.spelling.length ≤ 2 := by
  cases s <;> decide

lemma mem_all (s : Symbol) : s ∈ Symbol.all := by cases s <;> decide

/-- A symbol that does not join with what follows is found in front of it as if by itself. -/
lemma isPrefixOf_append {s other : Symbol} {c : Char} (h : s.joins c = false) (rest : Text) :
    other.spelling.isPrefixOf (s.spelling ++ c :: rest) = other.spelling.isPrefixOf s.spelling := by
  rw [Bool.eq_iff_iff, List.isPrefixOf_iff_prefix, List.isPrefixOf_iff_prefix]
  refine ⟨fun hfront => ?_, fun hfront => hfront.trans (List.prefix_append _ _)⟩
  have hs := spelling_length s
  have hother := spelling_length other
  by_cases hlength : other.spelling.length ≤ s.spelling.length
  · exact List.prefix_of_prefix_length_le hfront (List.prefix_append _ _) hlength
  · have hjoin : other.spelling = s.spelling ++ [c] := by
      have hall : s.spelling ++ [c] <+: s.spelling ++ c :: rest :=
        (List.prefix_append_right_inj _).2 ((List.prefix_cons_inj c).2 List.nil_prefix)
      refine (List.prefix_of_prefix_length_le hfront hall ?_).eq_of_length ?_
      · rw [List.length_append, List.length_singleton]
        omega
      · rw [List.length_append, List.length_singleton]
        omega
    rw [Symbol.joins, Bool.or_eq_false_iff] at h
    have hnone := List.any_eq_false.1 h.1 other (mem_all other)
    exact absurd (beq_iff_eq.2 hjoin) hnone

lemma follows_symbol {s : Symbol} {c : Char} (h : s.joins c = false) :
    Follows (some (.symbol s)) c := by
  rw [follows_some]
  intro rest
  constructor
  · rw [← atFront?_spelling s, Symbol.atFront?, Symbol.atFront?]
    exact congrArg (Symbol.all.find? ·) (funext fun other => isPrefixOf_append h rest)
  · rintro rfl hc
    rw [Symbol.joins, Bool.or_eq_false_iff] at h
    have hslash := h.2
    rw [show c = '/' from Option.some.inj hc] at hslash
    cases hslash

lemma joins_cases {s : Symbol} {c : Char} (h : s.joins c = true) :
    (c = '&' ∨ c = '^') ∧ s.spelling.getLast? = some '&' ∨ c ∈ ['|', '<', '>', '=', ':', '/'] := by
  rw [Symbol.joins, Bool.or_eq_true_iff, List.any_eq_true] at h
  rcases h with ⟨other, -, hjoin⟩ | hslash
  · have hjoin : other.spelling = s.spelling ++ [c] := beq_iff_eq.1 hjoin
    have hlast : other.spelling.getLast? = some c := by rw [hjoin, List.getLast?_concat]
    have hfront : other.spelling.dropLast = s.spelling := by rw [hjoin, List.dropLast_concat]
    have hlength := (spelling_length s).1
    rw [← hfront] at hlength ⊢
    cases other <;> first | exact absurd hlength (by decide) | skip
    all_goals obtain rfl := Option.some.inj hlast
    all_goals decide
  · have hc : c = '/' := beq_iff_eq.1 (Bool.and_eq_true_iff.1 hslash).2
    exact .inr (by rw [hc]; decide)

lemma joins_eq_false {s : Symbol} {c : Char} (hc : c ≠ '&') (hc' : c ≠ '^')
    (h : c ∉ ['|', '<', '>', '=', ':', '/']) : s.joins c = false := by
  cases hj : s.joins c with
  | false => rfl
  | true =>
    rcases joins_cases hj with ⟨hand | hcaret, -⟩ | hmem
    · exact absurd hand hc
    · exact absurd hcaret hc'
    · exact absurd hmem h

/-- The kinds of the pieces that end an operand. -/
def TokenKind.closes : TokenKind → Bool
  | .keyword _ => true
  | .word => true
  | .integer => true
  | .character => true
  | .string => true
  | .symbol .parenRight => true
  | .symbol .bracketRight => true
  | .symbol .braceRight => true
  | _ => false

lemma joins_closes {s : Symbol} {c : Char} (h : s.joins c = true) :
    TokenKind.closes (.symbol s) = false := by
  rw [Symbol.joins, Bool.or_eq_true_iff, List.any_eq_true] at h
  rcases h with ⟨other, -, hjoin⟩ | hslash
  · have hjoin : other.spelling = s.spelling ++ [c] := beq_iff_eq.1 hjoin
    have hfront : other.spelling.dropLast = s.spelling := by rw [hjoin, List.dropLast_concat]
    cases s <;> first | rfl | (cases other <;> exact absurd hfront (by decide))
  · obtain rfl : s = .slash := beq_iff_eq.1 (Bool.and_eq_true_iff.1 hslash).1
    rfl

lemma follows_closes (h : kind.closes = true) {c : Char} (hc : Token.isWordChar c = false) :
    Follows (some kind) c := by
  have hdigit : Text.isDigit c = false := (Bool.or_eq_false_iff.1 hc).2
  rw [follows_some]
  intro rest
  cases kind with
  | keyword k => simpa [Separates] using hc
  | word => simpa [Separates] using hc
  | integer => simpa [Separates] using hdigit
  | character => trivial
  | string => trivial
  | symbol s =>
    have hjoins : s.joins c = false := by
      cases hj : s.joins c with
      | false => rfl
      | true =>
        have hshort := joins_closes hj
        rw [hshort] at h
        cases h
    exact (follows_some c).1 (follows_symbol hjoins) rest
  | _ => cases h

lemma follows_apart {c : Char} (hword : Token.isWordChar c = false) (hjoins : ∀ s : Symbol, s.joins c = false)
    (h : last ≠ some .space) (hcomment : last = some .comment → c = '\n') : Follows last c := by
  rintro kind rfl rest
  cases kind with
  | space => exact absurd rfl h
  | symbol s => exact (follows_some _).1 (follows_symbol (hjoins s)) rest
  | comment => simp [Separates, hcomment rfl]
  | newline => trivial
  | character => trivial
  | string => trivial
  | keyword k => exact (follows_some _).1 (follows_closes rfl hword) rest
  | word => exact (follows_some _).1 (follows_closes rfl hword) rest
  | integer => exact (follows_some _).1 (follows_closes rfl hword) rest

lemma follows_newline (h : last ≠ some .space) : Follows last '\n' :=
  follows_apart (by decide) (fun _ => joins_eq_false (by decide) (by decide) (by decide)) h fun _ => rfl

lemma follows_blank (h : last ≠ some .space) (hc : last ≠ some .comment) : Follows last ' ' :=
  follows_apart (by decide) (fun _ => joins_eq_false (by decide) (by decide) (by decide)) h
    fun hcomment => absurd hcomment hc

end Pieces

end DpLang
