import DpLang.Proofs.Concatenation

/-!
# Runs of tokens

The text of some neighbouring tokens, read from where the first of them starts, has exactly these
tokens. In front of them nothing matters, since a text is cut from its front on; behind them nothing
matters either, since a token that is the longest one in a text is the longest one in every shorter
text that has room for it.
-/

namespace DpLang

section Cuts

variable {t rest text : Text} {kind : TokenKind} {pieces others : List Piece}

/-- Without the end of the text, there are no more tokens to choose from than with it. -/
lemma IsLongest.shorten (h : IsLongest (text ++ (t ++ rest)) kind text) :
    IsLongest (text ++ t) kind text where
  admits := h.admits
  front := List.prefix_append text t
  longest kind' text' hadmits hfront := by
    apply h.longest kind' text' hadmits
    rw [← List.append_assoc]
    exact hfront.trans (List.prefix_append _ rest)
  unreserved := h.unreserved

lemma Munch.source_eq (h : Munch t pieces rest) : t = pieces.flatMap Prod.snd ++ rest := by
  induction h with
  | stop t => rfl
  | step longest others ih => rw [List.flatMap_cons, List.append_assoc, ← ih]

/-- Cutting can be interrupted at every token. -/
lemma Munch.interrupt (h : Munch t (pieces ++ others) rest) :
    ∃ middle, Munch t pieces middle ∧ Munch middle others rest := by
  induction pieces generalizing t with
  | nil => exact ⟨t, .stop t, h⟩
  | cons piece pieces ih =>
    cases h with
    | step longest h =>
      obtain ⟨middle, hfront, hback⟩ := ih h
      exact ⟨middle, .step longest hfront, hback⟩

lemma Munch.shorten (h : Munch t pieces rest) : Munch (pieces.flatMap Prod.snd) pieces [] := by
  induction h with
  | stop t => exact .stop []
  | step longest others ih =>
    rw [others.source_eq] at longest
    exact .step longest.shorten ih

end Cuts

section Places

variable {p : Position} {before run others : List Token}

lemma length_placed (p : Position) (pieces : List Piece) : (placed p pieces).length = pieces.length := by
  induction pieces generalizing p with
  | nil => rfl
  | cons piece pieces ih => rw [placed, List.length_cons, ih, List.length_cons]

lemma allPieces_source (tokens : List Token) : (allPieces tokens).flatMap Prod.snd = sourceOf tokens := by
  rw [allPieces, List.flatMap_map]
  rfl

lemma placed_run (h : before ++ (run ++ others) = placed p (allPieces (before ++ (run ++ others)))) :
    run = placed (p.after (sourceOf before)) (allPieces run) := by
  have hpieces : allPieces (before ++ (run ++ others)) =
      allPieces before ++ (allPieces run ++ allPieces others) := by
    simp only [allPieces, List.map_append]
  rw [hpieces, placed_append, placed_append, allPieces_source] at h
  have hbehind := List.append_inj_right h (by rw [length_placed, allPieces, List.length_map])
  exact List.append_inj_left hbehind (by rw [length_placed, allPieces, List.length_map])

end Places

variable {p : Position} {t : Text} {tokens : List Token}

/-- The text of neighbouring tokens of a text, read from where the first of them starts, is cut into
these tokens again. -/
theorem tokenize_run (h : tokenize p t = .ok tokens) (i j : Nat) :
    tokenize (placeOf p (tokens.extract i j)) (sourceOf (tokens.extract i j)) =
      .ok (tokens.extract i j) := by
  generalize hrun : tokens.extract i j = run
  have hsplit : tokens = tokens.take i ++ (run ++ (tokens.drop i).drop (j - i)) := by
    rw [← hrun, List.extract_eq_take_drop, List.take_append_drop, List.take_append_drop]
  generalize tokens.take i = before at hsplit
  generalize (tokens.drop i).drop (j - i) = others at hsplit
  subst hsplit
  have hplaced := placed_run (tokenizeWithin_placed h)
  have hmunch : Munch (sourceOf run) (allPieces run) [] := by
    have hall := munch_of_tokenize h
    simp only [allPieces, List.map_append] at hall
    obtain ⟨_, -, hbehind⟩ := hall.interrupt
    obtain ⟨_, hcut, -⟩ := hbehind.interrupt
    rw [← allPieces_source]
    exact hcut.shorten
  rw [tokenize_of_munch hmunch]
  cases run with
  | nil => rfl
  | cons token run =>
    have hstart : token.start = p.after (sourceOf before) := by
      rw [allPieces, List.map_cons, placed] at hplaced
      rw [(List.cons.inj hplaced).1]
    rw [placeOf, List.head?_cons, Option.map_some, Option.getD_some, hstart, ← hplaced]

/-- The run stands behind a reserved word that starts the last word of the run, and in front of a
comment. -/
theorem tokenize_run_between :
    ∃ tokens, tokenize (.startOf "f") "\"\n\"for:=format//if" = .ok tokens ∧
      tokenize (placeOf (.startOf "f") (tokens.extract 2 4)) (sourceOf (tokens.extract 2 4)) =
        .ok (tokens.extract 2 4) := by
  have hread : (tokenize (.startOf "f") "\"\n\"for:=format//if").toOption.isSome := by decide +kernel
  cases ht : tokenize (.startOf "f") "\"\n\"for:=format//if" with
  | error report => rw [ht] at hread; cases hread
  | ok tokens => exact ⟨tokens, rfl, tokenize_run ht 2 4⟩

end DpLang
