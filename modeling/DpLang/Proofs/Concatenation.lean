import DpLang.Proofs.Canonical
import DpLang.Proofs.ExtensionFile
import DpLang.Proofs.Munch

/-!
# Files one behind the other

A text that is empty or ends with a line end can be followed by another one: the tokens and the nodes
of both are those of the first one and then those of the second one, read from where the first one
ends.
-/

namespace DpLang

section Tokens

variable {t text more : Text} {kind : TokenKind}

lemma takeWhile_append_line {p : Char → Bool} {rest : Text} (hp : p '\n' = false)
    (hline : rest.getLast? = some '\n') : (rest ++ more).takeWhile p = rest.takeWhile p := by
  induction rest with
  | nil => cases hline
  | cons c rest ih =>
    rw [List.cons_append, List.takeWhile_cons, List.takeWhile_cons]
    cases rest with
    | nil =>
      obtain rfl : c = '\n' := by simpa using hline
      rw [hp]
      rfl
    | cons d rest => rw [ih hline]

lemma newline_not_mem_spelling (s : Symbol) : '\n' ∉ s.spelling := by cases s <;> decide

lemma atFront?_append_line (hline : t.getLast? = some '\n') :
    Symbol.atFront? (t ++ more) = Symbol.atFront? t := by
  have hsame (s : Symbol) : s.spelling.isPrefixOf (t ++ more) = s.spelling.isPrefixOf t := by
    rw [Bool.eq_iff_iff, List.isPrefixOf_iff_prefix, List.isPrefixOf_iff_prefix]
    refine ⟨fun h => ?_, fun h => h.trans (List.prefix_append t more)⟩
    rcases List.prefix_or_prefix_of_prefix h (List.prefix_append t more) with h | h
    · exact h
    · exact absurd (h.subset (List.mem_of_getLast? hline)) (newline_not_mem_spelling s)
  unfold Symbol.atFront?
  simp only [hsame]

/-- The token in front of a text that ends with a line end is the same if more text follows. -/
lemma lexeme?_append_line (more : Text) (h : Token.lexeme? t = some (kind, text))
    (hline : t.getLast? = some '\n') :
    Token.lexeme? (t ++ more) = some (kind, text) := by
  cases t with
  | nil => cases h
  | cons c rest =>
    by_cases hc : c = '\n'
    · rw [Token.lexeme?, if_pos hc] at h
      rw [List.cons_append, Token.lexeme?, if_pos hc, h]
    · have hrest : rest.getLast? = some '\n' := by
        cases rest with
        | nil => exact absurd (by simpa using hline) hc
        | cons d rest => exact hline
      have hhead : (rest ++ more).head? = rest.head? := by
        cases rest with
        | nil => cases hrest
        | cons d rest => rfl
      have hfront : Symbol.atFront? (c :: (rest ++ more)) = Symbol.atFront? (c :: rest) :=
        atFront?_append_line hline
      rw [Token.lexeme?] at h
      rw [List.cons_append, Token.lexeme?, hhead, takeWhile_append_line (by decide) hrest,
        takeWhile_append_line (by decide) hrest, takeWhile_append_line (by decide) hrest,
        takeWhile_append_line (by decide) hrest, hfront]
      split_ifs at h ⊢
      · exact h
      · exact h
      · exact h
      · exact h
      · cases hk : Token.quoteKind? c with
        | none => rw [hk] at h; exact h
        | some kind =>
          rw [hk] at h
          obtain ⟨body, hbody, hpair⟩ := Option.map_eq_some_iff.1 h
          obtain ⟨⟨behind, rfl⟩, hself⟩ := quotedRest?_self hbody
          dsimp only
          rw [List.append_assoc, hself, ← hpair]
          rfl

lemma IsLexeme.newline_of_line (h : IsLexeme kind text) (hline : text.getLast? = some '\n') :
    kind = .newline := by
  have hquoted {mark : Char} (hm : mark ≠ '\n') (hq : IsQuoted mark text) : kind = .newline := by
    obtain ⟨body, -, rfl⟩ := hq
    rw [List.getLast?_append] at hline
    exact absurd (Option.some.inj hline) hm
  have hadmits := admits_of_lexeme? h
  cases kind with
  | newline => rfl
  | character => exact hquoted (by decide) hadmits
  | string => exact hadmits.elim (hquoted (by decide)) (hquoted (by decide))
  | _ => exact absurd (List.mem_of_getLast? hline) (h.newline_not_mem rfl)

/-- A text that ends with a line end is cut as before if more text follows. -/
lemma Munch.append {s rest : Text} {pieces others : List Piece} (h : Munch t pieces [])
    (hline : t = [] ∨ t.getLast? = some '\n') (h' : Munch s others rest) :
    Munch (t ++ s) (pieces ++ others) rest := by
  generalize hnil : ([] : Text) = stop at h
  induction h with
  | stop t =>
    subst hnil
    exact h'
  | @step kind text t stop pieces longest _ ih =>
    have hne : text ≠ [] := (lexeme?_isFront (lexeme?_eq_some_iff.2 longest)).2
    have hline : (text ++ t).getLast? = some '\n' :=
      hline.resolve_left fun h => hne (List.append_eq_nil_iff.1 h).1
    have hrest : t = [] ∨ t.getLast? = some '\n' := by
      by_cases ht : t = []
      · exact .inl ht
      · rw [List.getLast?_append_of_ne_nil _ ht] at hline
        exact .inr hline
    have hlonger := lexeme?_append_line s (lexeme?_eq_some_iff.2 longest) hline
    rw [List.append_assoc] at hlonger ⊢
    exact .step (lexeme?_eq_some_iff.1 hlonger) (ih hrest hnil)

def placed (p : Position) : List Piece → List Token
  | [] => []
  | (kind, text) :: pieces => ⟨p, kind, text⟩ :: placed (p.after text) pieces

lemma placed_append (p : Position) (pieces others : List Piece) :
    placed p (pieces ++ others) =
      placed p pieces ++ placed (p.after (pieces.flatMap Prod.snd)) others := by
  induction pieces generalizing p with
  | nil => rfl
  | cons piece pieces ih =>
    rw [List.cons_append, placed, ih, placed, List.flatMap_cons, after_append, List.cons_append]

lemma tokenizeWithin_placed {fuel : Nat} {p : Position} {tokens : List Token}
    (h : Token.tokenizeWithin fuel p t = .ok tokens) : tokens = placed p (allPieces tokens) := by
  refine tokenizeWithin_induct (motive := fun p _ tokens => tokens = placed p (allPieces tokens))
    (fun p => rfl) ?_ h
  intro p kind text rest tokens _ hplaced
  exact congrArg _ hplaced

lemma munch_of_tokenize {p : Position} {tokens : List Token} (h : tokenize p t = .ok tokens) :
    Munch t (allPieces tokens) [] := by
  rcases tokenizeWithin_munch le_rfl p with ⟨found, hok, hmunch⟩ | ⟨_, _, _, _, _, herror⟩
  · obtain rfl := Except.ok.inj (hok.symm.trans h)
    exact hmunch
  · rw [tokenize, herror] at h
    cases h

lemma tokenize_of_munch {pieces : List Piece} (h : Munch t pieces []) (p : Position) :
    tokenize p t = .ok (placed p pieces) := by
  rcases tokenizeWithin_munch le_rfl p with ⟨tokens, hok, hmunch⟩ | ⟨_, rest, hmunch, hne, hnone, _⟩
  · rw [← (hmunch.unique h rfl rfl).1, ← tokenizeWithin_placed hok]
    exact hok
  · exact absurd (hmunch.unique h hnone rfl).2 hne

lemma endsLine_of_tokenize {p : Position} {tokens : List Token} (h : tokenize p t = .ok tokens)
    (hline : t = [] ∨ t.getLast? = some '\n') : EndsLine tokens := by
  obtain ⟨hne, hsource, -⟩ := tokenizeWithin_covers h
  intro token htoken
  obtain ⟨before, rfl⟩ := List.getLast?_eq_some_iff.1 htoken
  have htext : token.text ≠ [] := hne token (by simp)
  have hlast : t.getLast? = token.text.getLast? := by
    rw [← hsource, sourceOf, List.flatMap_append, List.flatMap_singleton,
      List.getLast?_append_of_ne_nil _ htext]
  have hlexeme : IsLexeme token.kind token.text := (lexed_tokenize h).isLexeme token (by simp)
  refine hlexeme.newline_of_line ?_
  rcases hline with rfl | hline
  · exact absurd (List.getLast?_eq_none_iff.1 hlast.symm) htext
  · rw [← hlast, hline]

lemma canonical_placed (p q : Position) (pieces : List Piece) :
    canonical (placed p pieces) = canonical (placed q pieces) := by
  have hviews : ((placed p pieces).filter (!·.isSpace)).map Token.view =
      ((placed q pieces).filter (!·.isSpace)).map Token.view := by
    induction pieces generalizing p q with
    | nil => rfl
    | cons piece pieces ih =>
      obtain ⟨kind, text⟩ := piece
      by_cases hspace : (Token.mk p kind text).isSpace = true
      · have hspace' : (Token.mk q kind text).isSpace = true := hspace
        rw [placed, placed, List.filter_cons_of_neg (by simp [hspace]),
          List.filter_cons_of_neg (by simp [hspace']), ih]
      · have hspace' : ¬(Token.mk q kind text).isSpace = true := hspace
        rw [placed, placed, List.filter_cons_of_pos (by simpa using hspace),
          List.filter_cons_of_pos (by simpa using hspace'), List.map_cons, List.map_cons, ih]
        rfl
  rw [canonical, canonical, hviews]

end Tokens

section Files

variable {p q : Position} {s t : Text} {ts us : List Token} {ns ms : List Node}

/-- A file that is empty or ends with a line end, followed by another file, is a file: its tokens and
nodes are those of the first one and those of the second one, read from where the first one ends. -/
theorem files_concatenate (hs : tokenize p s = .ok ts) (hns : parse ts = .ok ns)
    (ht : tokenize q t = .ok us) (hms : parse us = .ok ms) (hline : s = [] ∨ s.getLast? = some '\n') :
    ∃ vs ks, tokenize (p.after s) t = .ok vs ∧ parse vs = .ok ks ∧
      tokenize p (s ++ t) = .ok (ts ++ vs) ∧ parse (ts ++ vs) = .ok (ns ++ ks) := by
  have hmunch := munch_of_tokenize ht
  have hus := tokenizeWithin_placed ht
  have hts := tokenizeWithin_placed hs
  have hmoved := tokenize_of_munch hmunch (p.after s)
  generalize hvs : placed (p.after s) (allPieces us) = vs at hmoved
  -- where the second file starts does not matter for whether it is accepted
  have hcanonical : canonical us = canonical vs := by
    calc canonical us = canonical (placed q (allPieces us)) := congrArg canonical hus
      _ = canonical (placed (p.after s) (allPieces us)) := canonical_placed _ _ _
      _ = canonical vs := by rw [hvs]
  have hlexed := lexed_tokenize ht
  have hparsed : ∃ ks, parse vs = .ok ks := by
    cases parsedAlike (image_numbered hlexed hlexed rfl)
      (image_numbered hlexed (lexed_tokenize hmoved) hcanonical) with
    | accepted nodes _ right => exact ⟨_, right⟩
    | rejected report _ left _ => rw [hms] at left; cases left
  obtain ⟨ks, hks⟩ := hparsed
  have hall := tokenize_of_munch ((munch_of_tokenize hs).append hline hmunch) p
  have hsource : (allPieces ts).flatMap Prod.snd = s := by
    rw [allPieces, List.flatMap_map]
    exact (tokenizeWithin_covers hs).2.1
  rw [placed_append, ← hts, hsource, hvs] at hall
  exact ⟨vs, ks, hmoved, hks, hall, parse_append hns hks (endsLine_of_tokenize hs hline)⟩

/-- Without the line end, the receiver would be the argument of a call. -/
theorem files_concatenate_method :
    ∃ ts ns us ms vs ks, tokenize (.startOf "f") "a = b\n" = .ok ts ∧ parse ts = .ok ns ∧
      tokenize (.startOf "f") "(r T) m() \x7b\n\x7d" = .ok us ∧ parse us = .ok ms ∧
      tokenize ((Position.startOf "f").after "a = b\n") "(r T) m() \x7b\n\x7d" = .ok vs ∧
      parse vs = .ok ks ∧ tokenize (.startOf "f") "a = b\n(r T) m() \x7b\n\x7d" = .ok (ts ++ vs) ∧
      parse (ts ++ vs) = .ok (ns ++ ks) := by
  obtain ⟨ts, ns, hs, hns⟩ := exists_parsed (.startOf "f") "a = b\n" (by decide +kernel)
  obtain ⟨us, ms, ht, hms⟩ :=
    exists_parsed (.startOf "f") "(r T) m() \x7b\n\x7d" (by decide +kernel)
  obtain ⟨vs, ks, hvs, hks, htokens, hnodes⟩ :=
    files_concatenate hs hns ht hms (.inr (by decide +kernel))
  exact ⟨ts, ns, us, ms, vs, ks, hs, hns, ht, hms, hvs, hks, htokens, hnodes⟩

end Files

end DpLang
