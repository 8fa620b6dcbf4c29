import DpLang.Format
import DpLang.Proofs.AlikeFile
import DpLang.Proofs.Lockstep
import DpLang.Proofs.WellformedFile

/-!
# One layout for all texts with the same tokens

The layout of a text depends on its tokens only. Blanks between them and around comments do not
matter, and neither does how many line ends follow each other, as long as they are more than one.
To compare two such texts, the significant tokens are numbered, and the tokens of either text are
the image of the numbered ones.
-/

namespace DpLang

section Canonical

/-- The kind and text of a token, without the blanks around a comment. -/
def Token.view (t : Token) : TokenKind × Text :=
  (t.kind, if t.kind = .comment then Text.strip t.text else t.text)

/-- Shortens runs of three or more line ends to two. -/
def shortenRuns : List (TokenKind × Text) → List (TokenKind × Text)
  | a :: b :: c :: rest =>
    if a.1 = .newline ∧ b.1 = .newline ∧ c.1 = .newline then shortenRuns (b :: c :: rest)
    else a :: shortenRuns (b :: c :: rest)
  | rest => rest

/-- What the layout of a token sequence depends on: the kinds and texts of the tokens that are not
blank, with runs of line ends shortened to two. -/
def canonical (ts : List Token) : List (TokenKind × Text) :=
  shortenRuns ((ts.filter (!·.isSpace)).map Token.view)

/-- One more line end in front of an outline. -/
def passLine : List (TokenKind × Text × Nat) → List (TokenKind × Text × Nat)
  | (.newline, _, lines) :: more => (.newline, [], min 2 (lines + 1)) :: more
  | more => (.newline, [], 1) :: more

/-- The tokens with runs of line ends as one, and how many lines each of them passes, two standing
for more. -/
def outline : List (TokenKind × Text) → List (TokenKind × Text × Nat)
  | [] => []
  | (kind, text) :: rest =>
    if kind = .newline then passLine (outline rest)
    else (kind, text, min 2 text.newlines) :: outline rest

lemma passLine_of_ne {xs : List (TokenKind × Text × Nat)} (h : ∀ x ∈ xs.head?, x.1 ≠ .newline) :
    passLine xs = (.newline, [], 1) :: xs := by
  cases xs with
  | nil => rfl
  | cons x xs =>
    obtain ⟨kind, text, lines⟩ := x
    cases kind with
    | newline => exact absurd rfl (h _ rfl)
    | _ => rfl

lemma passLine_thrice (xs : List (TokenKind × Text × Nat)) :
    passLine (passLine (passLine xs)) = passLine (passLine xs) := by
  have hfirst : ∃ lines more, passLine xs = (.newline, [], lines + 1) :: more := by
    cases xs with
    | nil => exact ⟨0, [], rfl⟩
    | cons x xs =>
      obtain ⟨kind, text, lines⟩ := x
      cases kind with
      | newline => exact ⟨min 1 lines, xs, by simp [passLine]; omega⟩
      | _ => exact ⟨0, _, rfl⟩
  obtain ⟨lines, more, hxs⟩ := hfirst
  have htwo : min 2 (min 2 (lines + 1 + 1) + 1) = min 2 (lines + 1 + 1) := by omega
  rw [hxs]
  simp only [passLine]
  rw [htwo]

/-- The third line end in a row makes no difference. -/
lemma outline_shortenRuns (xs : List (TokenKind × Text)) : outline (shortenRuns xs) = outline xs := by
  induction xs using shortenRuns.induct with
  | case1 a b c rest h ih =>
    obtain ⟨kind, text⟩ := a
    obtain ⟨kind', text'⟩ := b
    obtain ⟨kind'', text''⟩ := c
    obtain ⟨rfl, rfl, rfl⟩ := h
    rw [shortenRuns, if_pos ⟨rfl, rfl, rfl⟩, ih]
    simp only [outline, if_true]
    exact (passLine_thrice _).symm
  | case2 a b c rest h ih =>
    rw [shortenRuns, if_neg h, outline, outline, ih]
  | case3 xs h => rw [shortenRuns.eq_2 xs h]

/-- The kind and text that decide how a token is read, and that are left of it in an outline. -/
def Token.mark (t : Token) : TokenKind × Text := (t.kind, if t.kind = .newline then [] else t.view.2)

/-- The tokens have the given outline. The first one starts on a line, and behind the last one is
the line `stop`. -/
inductive Outlined (stop : Int) : Int → List (TokenKind × Text × Nat) → List Token → Prop where
  | nil : Outlined stop stop [] []
  | cons {t : Token} {kind : TokenKind} {text : Text} {lines d : Nat} {line next : Int}
      {xs : List (TokenKind × Text × Nat)} {ts : List Token} (start : t.start.line = line)
      (mark : t.mark = (kind, text)) (passed : next = line + d) (clipped : min 2 d = lines)
      (rest : Outlined stop next xs ts) : Outlined stop line ((kind, text, lines) :: xs) (t :: ts)

/-- The tokens without a line end in front of them. -/
def skipLine : List Token → List Token
  | [] => []
  | t :: ts => if t.kind = .newline then ts else t :: ts

/-- What follows a line end: the line ends that directly follow it are part of it. -/
lemma significant_true (ts : List Token) :
    significant true ts = skipLine (significant false ts) := by
  induction ts with
  | nil => rfl
  | cons t ts ih =>
    by_cases hs : t.isSpace = true
    · rw [significant_space hs, significant_space hs, ih]
    · have hs' : t.isSpace = false := by simpa using hs
      by_cases hn : t.kind = .newline
      · rw [significant_newline_again hn, significant_newline hn]
        exact (if_pos hn).symm
      · rw [significant_cons hs' hn, significant_cons hs' hn]
        exact (if_neg hn).symm

lemma Outlined.passLine {stop line next : Int} {xs : List (TokenKind × Text × Nat)} {us : List Token}
    {t : Token} (h : Outlined stop next xs us) (hnext : next = line + (1 : Nat))
    (hline : t.start.line = line) (hn : t.kind = .newline) :
    Outlined stop line (DpLang.passLine xs) (t :: skipLine us) := by
  have hmark : t.mark = (.newline, []) := by rw [Token.mark, if_pos hn, hn]
  cases h with
  | nil => exact .cons hline hmark hnext rfl .nil
  | @cons u kind text lines d _ next' xs us start mark passed clipped rest =>
    have hkind : u.kind = kind := congrArg Prod.fst mark
    by_cases hu : u.kind = .newline
    · obtain rfl : kind = .newline := by rw [← hkind, hu]
      rw [skipLine, if_pos hu]
      exact .cons (d := d + 1) hline hmark (by omega) (by omega) rest
    · rw [skipLine, if_neg hu, passLine_of_ne (by simpa [← hkind] using hu)]
      exact .cons hline hmark hnext rfl (.cons start mark passed clipped rest)

lemma newlines_view {t : Token} (h : IsLexeme t.kind t.text) : t.view.2.newlines = t.text.newlines := by
  by_cases hc : t.kind = .comment
  · rw [hc] at h
    rw [Token.view, if_pos hc, h.newlines_eq_zero rfl, (isCommentText_strip h).1.newlines_eq_zero rfl]
  · rw [Token.view, if_neg hc]

lemma outlined_significant {ts : List Token} {line : Int} (h : Lexed line ts) :
    Outlined (line + lineEnds ts) line (outline ((ts.filter (!·.isSpace)).map Token.view))
      (significant false ts) := by
  induction ts generalizing line with
  | nil =>
    rw [show line + (lineEnds [] : Int) = line from Int.add_zero _]
    exact .nil
  | cons t ts ih =>
    obtain ⟨hline, hlex, -, hrest⟩ := h
    have hends : line + (lineEnds (t :: ts) : Int) = line + t.text.newlines + lineEnds ts := by
      simp only [lineEnds, List.map_cons, List.sum_cons]
      omega
    have ih := ih hrest
    rw [← hends] at ih
    by_cases hs : t.isSpace = true
    · have hk : t.kind = .space := by simpa [Token.isSpace] using hs
      rw [hk] at hlex
      rw [significant_space hs, List.filter_cons_of_neg (by simp [hs])]
      rw [hlex.newlines_eq_zero rfl] at ih
      simpa using ih
    · have hs' : t.isSpace = false := by simpa using hs
      rw [List.filter_cons_of_pos (by simp [hs']), List.map_cons]
      by_cases hn : t.kind = .newline
      · have hone : t.text.newlines = 1 := by
          rw [hn] at hlex
          rw [show t.text = ['\n'] from hlex.shape]
          rfl
        rw [significant_newline hn, outline, if_pos (by exact hn), significant_true]
        rw [hone] at ih
        exact ih.passLine rfl hline hn
      · rw [significant_cons hs' hn, outline, if_neg (by exact hn)]
        refine .cons hline ?_ rfl ?_ ih
        · rw [Token.mark, if_neg hn]
          rfl
        · rw [newlines_view hlex]

end Canonical

section Places

/-- The lines on which tokens start, and twice the line `stop` behind them. -/
def linesOf (stop : Int) (us : List Token) : List Int := us.map (·.start.line) ++ [stop, stop]

variable {stop stop' line line' x x' y y' : Int} {xs : List (TokenKind × Text × Nat)}
  {us us' : List Token}

lemma eq_of_linesOf_nil {i : Nat} (h : (linesOf stop [])[i]? = some x) : x = stop := by
  have := List.mem_of_getElem? h
  simpa [linesOf] using this

/-- Tokens with the same outline are the same number of lines ahead, two standing for more. -/
lemma Outlined.ahead (h : Outlined stop line xs us) (h' : Outlined stop' line' xs us') {i : Nat}
    (hx : (linesOf stop us)[i]? = some x) (hx' : (linesOf stop' us')[i]? = some x') :
    ∃ d d' : Nat, x = line + d ∧ x' = line' + d' ∧ min 2 d = min 2 d' := by
  induction h generalizing line' us' i with
  | nil =>
    cases h' with
    | nil =>
      exact ⟨0, 0, by simp [eq_of_linesOf_nil hx], by simp [eq_of_linesOf_nil hx'], rfl⟩
  | @cons _ _ _ _ e _ _ _ _ start mark passed clipped rest ih =>
    cases h' with
    | @cons _ _ _ _ e' _ _ _ _ start' mark' passed' clipped' rest' =>
      cases i with
      | zero =>
        simp only [linesOf, List.map_cons, List.cons_append, List.getElem?_cons_zero,
          Option.some.injEq] at hx hx'
        exact ⟨0, 0, by omega, by omega, rfl⟩
      | succ i =>
        obtain ⟨d, d', hd, hd', hmin⟩ := ih rest' hx hx'
        exact ⟨e + d, e' + d', by omega, by omega, by omega⟩

/-- Tokens with the same outline are the same number of lines apart, as far as it matters. -/
lemma Outlined.between (h : Outlined stop line xs us) (h' : Outlined stop' line' xs us') {i j : Nat}
    (hx : (linesOf stop us)[i]? = some x) (hx' : (linesOf stop' us')[i]? = some x')
    (hy : (linesOf stop us)[j]? = some y) (hy' : (linesOf stop' us')[j]? = some y') :
    clip (x - y) = clip (x' - y') := by
  induction h generalizing line' us' i j with
  | nil =>
    cases h' with
    | nil =>
      rw [eq_of_linesOf_nil hx, eq_of_linesOf_nil hx', eq_of_linesOf_nil hy, eq_of_linesOf_nil hy']
      simp
  | cons start mark passed clipped rest ih =>
    obtain ⟨d, d', hd, hd', hmin⟩ := (Outlined.cons start mark passed clipped rest).ahead h' hx hx'
    obtain ⟨e, e', he, he', hmin'⟩ := (Outlined.cons start mark passed clipped rest).ahead h' hy hy'
    cases h' with
    | cons start' mark' passed' clipped' rest' =>
      cases i with
      | zero =>
        simp only [linesOf, List.map_cons, List.cons_append, List.getElem?_cons_zero,
          Option.some.injEq] at hx hx'
        unfold clip
        omega
      | succ i =>
        cases j with
        | zero =>
          simp only [linesOf, List.map_cons, List.cons_append, List.getElem?_cons_zero,
            Option.some.injEq] at hy hy'
          unfold clip
          omega
        | succ j => exact ih rest' hx hx' hy hy'

lemma lineEnds_of_spaces {ts : List Token} (h : Lexed line ts) (hs : ∀ t ∈ ts, t.isSpace = true) :
    lineEnds ts = 0 := by
  induction ts generalizing line with
  | nil => rfl
  | cons t ts ih =>
    obtain ⟨-, hlex, -, hrest⟩ := h
    rw [List.forall_mem_cons] at hs
    have hk : t.kind = .space := by simpa [Token.isSpace] using hs.1
    rw [hk] at hlex
    have hrest := ih hrest hs.2
    unfold lineEnds at hrest ⊢
    rw [List.map_cons, List.sum_cons, hrest, hlex.newlines_eq_zero rfl]

lemma lastStop?_line {ts : List Token} (h : Lexed line ts) {p : Position} (hp : lastStop? ts = some p) :
    p.line = line + lineEnds ts := by
  induction ts generalizing line p with
  | nil => cases hp
  | cons t ts ih =>
    obtain ⟨hline, hlex, -, hrest⟩ := h
    have hends : (lineEnds (t :: ts) : Int) = t.text.newlines + lineEnds ts := by simp [lineEnds]
    by_cases hs : t.isSpace = true
    · rw [← lastStop?_dropWhile, List.dropWhile_cons_of_pos hs, lastStop?_dropWhile] at hp
      rw [ih hrest hp, hends, Int.add_assoc]
    · have hs' : t.isSpace = false := by simpa using hs
      rw [lastStop?_cons hs', Option.some.injEq] at hp
      cases hl : lastStop? ts with
      | some q =>
        rw [hl, Option.getD_some] at hp
        rw [← hp, ih hrest hl, hends, Int.add_assoc]
      | none =>
        have hflat := lineEnds_of_spaces hrest (lastStop?_eq_none.mp hl)
        rw [hl, Option.getD_none] at hp
        rw [← hp, hends, hflat, Token.stop, line_after, hline]
        simp

lemma finish_line {ts : List Token} (h : Lexed line ts) {t : Token} (ht : ts.getLast? = some t) :
    t.stop.line = line + lineEnds ts := by
  induction ts generalizing line with
  | nil => cases ht
  | cons u ts ih =>
    obtain ⟨hline, -, -, hrest⟩ := h
    have hends : (lineEnds (u :: ts) : Int) = u.text.newlines + lineEnds ts := by simp [lineEnds]
    cases hl : ts.getLast? with
    | some v =>
      rw [List.getLast?_cons, hl, Option.getD_some, Option.some.injEq] at ht
      rw [ih hrest (by rw [hl, ht]), hends, Int.add_assoc]
    | none =>
      rw [List.getLast?_cons, hl, Option.getD_none, Option.some.injEq] at ht
      rw [List.getLast?_eq_none_iff.mp hl] at hends
      rw [List.getLast?_eq_none_iff.mp hl, hends, ← ht, Token.stop, line_after, hline]
      simp [lineEnds]

/-- The places that matter: nowhere, the starts of the significant tokens, behind the last one, and
the end. -/
def marks (ts : List Token) : List Position :=
  .unknown :: ((significant false ts).map Token.start ++
    [(lastStop? ts).getD .unknown, (Cursor.ofTokens ts).finish])

lemma lines_marks {ts : List Token} (h : Lexed line ts) (hne : significant false ts ≠ []) :
    (marks ts).map Position.line = 0 :: linesOf (line + lineEnds ts) (significant false ts) := by
  have hstop : ((lastStop? ts).getD .unknown).line = line + lineEnds ts := by
    cases hl : lastStop? ts with
    | none => exact absurd (significant_eq_nil.mpr (lastStop?_eq_none.mp hl)) hne
    | some p => exact lastStop?_line h hl
  have hfinish : (Cursor.ofTokens ts).finish.line = line + lineEnds ts := by
    cases hl : ts.getLast? with
    | none => rw [List.getLast?_eq_none_iff.mp hl] at hne; exact absurd rfl hne
    | some t =>
      have hf : (Cursor.ofTokens ts).finish = t.stop := by rw [Cursor.ofTokens, hl]; rfl
      rw [hf, finish_line h hl]
  unfold marks linesOf
  rw [List.map_cons, List.map_append, List.map_map, List.map_cons, List.map_singleton, hstop, hfinish]
  rfl

/-- Which of the places of `count` tokens a place among numbered tokens stands for. -/
def number (count : Nat) (p : Position) : Nat :=
  if p.column = 0 then 0
  else if p.offset < 0 then count + 2
  else min p.offset.toNat count + 1

def numberPlace (i : Nat) : Position := ⟨[], 1, 1, i⟩

/-- The significant tokens with their numbers for places. -/
def numbered (ts : List Token) : Cursor where
  rest := (significant false ts).mapIdx fun i t => { t with start := numberPlace i }
  index := 0
  last := .unknown
  finish := ⟨[], 1, 1, -1⟩

/-- Moves numbered tokens to their places. -/
def unnumber (ts : List Token) : Shift where
  place p := ((marks ts)[number (significant false ts).length p]?).getD .unknown
  comment p _ :=
    match (significant false ts)[p.offset.toNat]? with
    | some t => if t.kind = .comment then t.text else []
    | none => []

lemma number_lt {ts : List Token} (p : Position) :
    number (significant false ts).length p < (marks ts).length := by
  unfold number marks
  rw [List.length_cons, List.length_append, List.length_map, List.length_cons, List.length_singleton]
  split
  · omega
  · split <;> omega

lemma marks_number (ts : List Token) (p : Position) :
    (marks ts)[number (significant false ts).length p]? = some ((unnumber ts).place p) := by
  have hp := List.getElem?_eq_getElem (number_lt p : _ < (marks ts).length)
  rw [unnumber]
  dsimp only
  rw [hp, Option.getD_some]

end Places

section Images

variable {line line' : Int} {ts us : List Token}

lemma Lexed.isLexeme (h : Lexed line ts) : ∀ t ∈ ts, IsLexeme t.kind t.text := by
  induction ts generalizing line with
  | nil => simp
  | cons t ts ih => exact List.forall_mem_cons.mpr ⟨h.2.1, ih h.2.2.2⟩

lemma significant_sublist (b : Bool) (ts : List Token) : (significant b ts).Sublist ts := by
  induction ts generalizing b with
  | nil => exact .slnil
  | cons t ts ih =>
    rw [significant]
    split
    · exact (ih b).cons t
    · split
      · split
        · exact (ih true).cons t
        · exact (ih true).cons_cons t
      · exact (ih false).cons_cons t

lemma Outlined.marks {stop : Int} {xs : List (TokenKind × Text × Nat)} (h : Outlined stop line xs ts) :
    ts.map Token.mark = xs.map fun x => (x.1, x.2.1) := by
  induction h with
  | nil => rfl
  | cons start mark passed clipped rest ih => rw [List.map_cons, List.map_cons, mark, ih]

lemma outline_canonical (ts : List Token) :
    outline (canonical ts) = outline ((ts.filter (!·.isSpace)).map Token.view) :=
  outline_shortenRuns _

lemma marks_eq (h : Lexed line ts) (h' : Lexed line' us) (hc : canonical ts = canonical us) :
    (significant false ts).map Token.mark = (significant false us).map Token.mark := by
  rw [(outlined_significant h).marks, (outlined_significant h').marks, ← outline_canonical,
    ← outline_canonical, hc]

lemma clip_marks (h : Lexed 1 ts) (h' : Lexed 1 us) (hne : significant false ts ≠ [])
    (hne' : significant false us ≠ []) (hc : canonical ts = canonical us) {i j : Nat}
    {p p' q q' : Position} (hp : (marks ts)[i]? = some p) (hp' : (marks us)[i]? = some p')
    (hq : (marks ts)[j]? = some q) (hq' : (marks us)[j]? = some q') :
    clip (p.line - q.line) = clip (p'.line - q'.line) := by
  have hout := outlined_significant h
  have hout' := outlined_significant h'
  rw [← outline_canonical, hc] at hout
  rw [← outline_canonical] at hout'
  have hline {ts : List Token} (h : Lexed 1 ts) (hne : significant false ts ≠ []) {i : Nat}
      {p : Position} (hp : (marks ts)[i]? = some p) :
      (0 :: linesOf (1 + lineEnds ts) (significant false ts))[i]? = some p.line := by
    rw [← lines_marks h hne, List.getElem?_map, hp]
    rfl
  have hx := hline h hne hp
  have hx' := hline h' hne' hp'
  have hy := hline h hne hq
  have hy' := hline h' hne' hq'
  cases i with
  | zero =>
    rw [List.getElem?_cons_zero, Option.some.injEq] at hx hx'
    cases j with
    | zero =>
      rw [List.getElem?_cons_zero, Option.some.injEq] at hy hy'
      rw [← hx, ← hx', ← hy, ← hy']
    | succ j =>
      obtain ⟨d, d', hd, hd', hmin⟩ := hout.ahead hout' hy hy'
      unfold clip
      omega
  | succ i =>
    cases j with
    | zero =>
      rw [List.getElem?_cons_zero, Option.some.injEq] at hy hy'
      obtain ⟨d, d', hd, hd', hmin⟩ := hout.ahead hout' hx hx'
      unfold clip
      omega
    | succ j => exact hout.between hout' hx hx' hy hy'

lemma getElem?_mark {i : Nat} (hm : ts.map Token.mark = us.map Token.mark) :
    (ts[i]?).map Token.mark = (us[i]?).map Token.mark := by
  rw [← List.getElem?_map, hm, List.getElem?_map]

lemma newlines_unnumber (h : Lexed line ts) (p : Position) (text : Text) :
    ((unnumber ts).comment p text).newlines = 0 := by
  unfold unnumber
  dsimp only
  split
  · next t ht =>
    have hlex := h.isLexeme t ((significant_sublist false ts).subset (List.mem_of_getElem? ht))
    split
    · next hk =>
      rw [hk] at hlex
      exact hlex.newlines_eq_zero rfl
    · rfl
  · rfl

lemma alike_unnumber (h : Lexed 1 ts) (h' : Lexed 1 us)
    (hne : significant false ts ≠ []) (hc : canonical ts = canonical us) :
    (unnumber ts).Alike (unnumber us) := by
  have hm := marks_eq h h' hc
  have hlen : (significant false ts).length = (significant false us).length := by
    simpa using congrArg List.length hm
  have hne' : significant false us ≠ [] := by
    rw [← List.length_pos_iff, ← hlen, List.length_pos_iff]
    exact hne
  refine ⟨fun p q => ?_, fun p text => ?_, fun p text => ?_⟩
  · have hplace (p : Position) :
        (marks us)[number (significant false ts).length p]? = some ((unnumber us).place p) := by
      rw [hlen]
      exact marks_number us p
    exact clip_marks h h' hne hne' hc (marks_number ts p) (hplace p) (marks_number ts q) (hplace q)
  · have hi := getElem?_mark (i := p.offset.toNat) hm
    unfold unnumber
    dsimp only
    cases ht : (significant false ts)[p.offset.toNat]? with
    | none =>
      rw [ht, Option.map_none, eq_comm, Option.map_eq_none_iff] at hi
      rw [hi]
    | some t =>
      rw [ht, Option.map_some, eq_comm, Option.map_eq_some_iff] at hi
      obtain ⟨u, hu, hmark⟩ := hi
      rw [hu]
      dsimp only
      have hkind : u.kind = t.kind := congrArg Prod.fst hmark
      by_cases hk : t.kind = .comment
      · have htext : u.mark.2 = t.mark.2 := congrArg Prod.snd hmark
        rw [if_pos hk, if_pos (by rw [hkind, hk])]
        simpa [Token.mark, Token.view, hkind, hk] using htext.symm
      · rw [if_neg hk, if_neg (by rw [hkind]; exact hk)]
  · exact ⟨newlines_unnumber h p text, newlines_unnumber h' p text⟩

lemma text_eq_of_mark {t u : Token} (ht : IsLexeme t.kind t.text) (hu : IsLexeme u.kind u.text)
    (hm : t.mark = u.mark) (hk : t.kind ≠ .comment) : t.text = u.text := by
  have hkind : t.kind = u.kind := congrArg Prod.fst hm
  by_cases hn : t.kind = .newline
  · rw [hn] at ht hkind
    rw [← hkind] at hu
    rw [show t.text = ['\n'] from ht.shape, show u.text = ['\n'] from hu.shape]
  · have htext : t.mark.2 = u.mark.2 := congrArg Prod.snd hm
    simpa [Token.mark, Token.view, ← hkind, hn, hk] using htext

lemma place_numberPlace {i : Nat} {u : Token} (hu : (significant false us)[i]? = some u) :
    (unnumber us).place (numberPlace i) = u.start := by
  obtain ⟨hi, hget⟩ := List.getElem?_eq_some_iff.mp hu
  have hnumber : number (significant false us).length (numberPlace i) = i + 1 := by
    unfold number numberPlace
    rw [if_neg (by simp), if_neg (by simp), Int.toNat_natCast, Nat.min_eq_left hi.le]
  unfold unnumber
  dsimp only
  rw [hnumber, marks, List.getElem?_cons_succ, List.getElem?_append_left (by simpa using hi),
    List.getElem?_map, hu]
  rfl

lemma move_numbered (h : Lexed line ts) (h' : Lexed line' us) (hc : canonical ts = canonical us) :
    significant false us = move (unnumber us) (numbered ts).rest := by
  have hm := marks_eq h h' hc
  refine List.ext_getElem? fun i => ?_
  have hi := getElem?_mark (i := i) hm
  have hrest : (move (unnumber us) (numbered ts).rest)[i]? =
      ((significant false ts)[i]?).map fun t =>
        move (unnumber us) ({ t with start := numberPlace i } : Token) := by
    change (List.map (move (unnumber us)) (numbered ts).rest)[i]? = _
    rw [List.getElem?_map, numbered, List.getElem?_mapIdx, Option.map_map]
    rfl
  rw [hrest]
  cases ht : (significant false ts)[i]? with
  | none =>
    rw [ht, Option.map_none, eq_comm, Option.map_eq_none_iff] at hi
    rw [hi]
    rfl
  | some t =>
    rw [ht, Option.map_some, eq_comm, Option.map_eq_some_iff] at hi
    obtain ⟨u, hu, hmark⟩ := hi
    have hkind : u.kind = t.kind := congrArg Prod.fst hmark
    have htlex := h.isLexeme t ((significant_sublist false ts).subset (List.mem_of_getElem? ht))
    have hulex := h'.isLexeme u ((significant_sublist false us).subset (List.mem_of_getElem? hu))
    rw [hu, Option.map_some, Option.some.injEq]
    obtain ⟨start, kind, text⟩ := u
    change _ = (⟨(unnumber us).place (numberPlace i), t.kind,
      if t.kind = .comment then (unnumber us).comment (numberPlace i) t.text else t.text⟩ : Token)
    rw [place_numberPlace hu, Token.mk.injEq]
    refine ⟨rfl, hkind, ?_⟩
    by_cases hk : t.kind = .comment
    · rw [if_pos hk]
      unfold unnumber numberPlace
      dsimp only
      rw [Int.toNat_natCast, hu]
      exact (if_pos (hkind.trans hk)).symm
    · rw [if_neg hk]
      exact text_eq_of_mark hulex htlex hmark (by rw [hkind]; exact hk)

lemma offset_le_after (p : Position) (text : Text) : p.offset + text.length ≤ (p.after text).offset := by
  induction text generalizing p with
  | nil => simp [Position.after]
  | cons c text ih =>
    have hstep : p.after (c :: text) = (p.step c).after text := rfl
    have hoffset : (p.step c).offset = p.offset + c.utf8Size := by unfold Position.step; split <;> rfl
    have hsize := c.utf8Size_pos
    have := ih (p.step c)
    rw [hstep, List.length_cons]
    omega

lemma column_after_pos {p : Position} (hp : 0 < p.column) (text : Text) : 0 < (p.after text).column := by
  induction text generalizing p with
  | nil => exact hp
  | cons c text ih =>
    refine ih (p := p.step c) ?_
    unfold Position.step
    split
    · exact Int.one_pos
    · exact Int.lt_add_one_of_le (Int.le_of_lt hp)

lemma place_finish : (unnumber us).place ⟨[], 1, 1, -1⟩ = (Cursor.ofTokens us).finish := by
  have hnumber : number (significant false us).length ⟨[], 1, 1, -1⟩ =
      (significant false us).length + 2 := rfl
  unfold unnumber
  dsimp only
  rw [hnumber, marks, List.getElem?_cons_succ, List.getElem?_append_right (by simp)]
  simp

lemma place_behind {i : Nat} (hi : i + 1 = (significant false us).length) {text : Text}
    (ht : text ≠ []) :
    (unnumber us).place ((numberPlace i).after text) = (lastStop? us).getD .unknown := by
  have hoffset := offset_le_after (numberPlace i) text
  have hcolumn := column_after_pos (p := numberPlace i) Int.one_pos text
  have hlength := List.length_pos_iff.mpr ht
  have hstart : (numberPlace i).offset = i := rfl
  have hnumber : number (significant false us).length ((numberPlace i).after text) =
      (significant false us).length + 1 := by
    unfold number
    rw [if_neg (by omega), if_neg (by omega), Nat.min_eq_right (by omega)]
  unfold unnumber
  dsimp only
  rw [hnumber, marks, List.getElem?_cons_succ, List.getElem?_append_right (by simp)]
  simp

lemma image_numbered (h : Lexed line ts) (h' : Lexed line' us) (hc : canonical ts = canonical us) :
    Cursor.Image (unnumber us) (numbered ts) (.ofTokens us) := by
  have hlen : (significant false ts).length = (significant false us).length := by
    simpa using congrArg List.length (marks_eq h h' hc)
  refine ⟨move_numbered h h' hc, rfl, place_finish.symm, fun t ht => ?_⟩
  rw [numbered, List.getLast?_eq_getElem?, List.length_mapIdx, List.getElem?_mapIdx,
    Option.map_eq_some_iff] at ht
  obtain ⟨u, hu, rfl⟩ := ht
  have hlex := h.isLexeme u ((significant_sublist false ts).subset (List.mem_of_getElem? hu))
  have hpos : (significant false ts).length - 1 < (significant false ts).length :=
    (List.getElem?_eq_some_iff.mp hu).1
  rw [Token.stop, place_behind (by omega) (lexeme?_isFront hlex).2]
  cases hl : lastStop? us with
  | some p => exact hl
  | none =>
    have hnil := significant_eq_nil.mpr (lastStop?_eq_none.mp hl)
    rw [hnil] at hlen
    simp only [List.length_nil] at hlen
    omega

lemma parse_of_blank (h : significant false ts = []) : parse ts = .ok [] := by
  have hrest : (Cursor.ofTokens ts).settle.rest = [] := by
    rw [Cursor.settle_rest]
    exact List.dropWhile_eq_nil_iff.mpr (significant_eq_nil.mp h)
  have hend : Parser.atEnd (.ofTokens ts) = .ok (true, (Cursor.ofTokens ts).settle) := by
    change Except.ok ((Cursor.ofTokens ts).settle.rest.head?.isNone, _) = _
    rw [hrest]
    rfl
  have hfile : Parser.file (.ofTokens ts) = .ok ([], (Cursor.ofTokens ts).settle) :=
    Parser.bind_of_ok hend
  exact congrArg (Except.map Prod.fst) hfile

end Images

section Formatting

lemma of_mapError_ok {ε ε' α : Type} {f : ε → ε'} {x : Except ε α} {a : α} (h : x.mapError f = .ok a) :
    x = .ok a := by
  cases x with
  | error e => cases h
  | ok b => exact congrArg Except.ok (Except.ok.inj h)

lemma tokenize_of_readTokens {path : Text} {source : Source} {tokens : List Token}
    (h : readTokens path source = .ok tokens) :
    ∃ text, tokenize (.startOf path) text = .ok tokens := by
  obtain ⟨text, -, ht⟩ := of_bind_ok (of_mapError_ok h)
  exact ⟨text, ht⟩

lemma format_of_parse {path : Text} {source : Source} {tokens : List Token} {nodes : List Node}
    (ht : readTokens path source = .ok tokens) (hp : parse tokens = .ok nodes) :
    format path source = .ok (planText (filePlan nodes)) := by
  obtain ⟨text, htext⟩ := tokenize_of_readTokens ht
  unfold format readNodes writeNodes
  rw [ht, bind_ok, hp]
  change (layout nodes).mapError FormatError.layout = _
  rw [(isFile_of_parse htext hp).1.layout_eq]
  rfl

lemma readTokens_of_tokenize {path text : Text} {tokens : List Token}
    (h : tokenize (.startOf path) text = .ok tokens) : readTokens path (.text text) = .ok tokens :=
  congrArg (Except.mapError FormatError.rejected) h

lemma parse_of_format {path : Text} {source : Source} {text : Text}
    (h : format path source = .ok text) :
    ∃ tokens nodes, readTokens path source = .ok tokens ∧ parse tokens = .ok nodes := by
  unfold format readNodes at h
  obtain ⟨tokens, ht, h⟩ := of_bind_ok h
  obtain ⟨nodes, hp, h⟩ := of_bind_ok h
  exact ⟨tokens, nodes, ht, of_mapError_ok hp⟩

/-- Texts whose tokens agree up to blanks, blanks around comments and more than two line ends in a
row are both rejected, or both accepted and formatted in the same way. -/
theorem format_eq_of_canonical_eq {path path' : Text} {source source' : Source}
    {tokens tokens' : List Token} (ht : readTokens path source = .ok tokens)
    (ht' : readTokens path' source' = .ok tokens') (hc : canonical tokens = canonical tokens') :
    (∃ report report', parse tokens = .error (.rejected report) ∧
      parse tokens' = .error (.rejected report')) ∨
    ∃ nodes nodes' text, parse tokens = .ok nodes ∧ parse tokens' = .ok nodes' ∧
      format path source = .ok text ∧ format path' source' = .ok text := by
  obtain ⟨text, htext⟩ := tokenize_of_readTokens ht
  obtain ⟨text', htext'⟩ := tokenize_of_readTokens ht'
  have hlexed : Lexed 1 tokens := lexed_tokenize htext
  have hlexed' : Lexed 1 tokens' := lexed_tokenize htext'
  cases parsedAlike (image_numbered hlexed hlexed rfl) (image_numbered hlexed hlexed' hc) with
  | rejected report report' left right => exact .inl ⟨report, report', left, right⟩
  | accepted nodes left right =>
    refine .inr ⟨_, _, _, left, right, format_of_parse ht left, ?_⟩
    rw [format_of_parse ht' right]
    congr 2
    by_cases hne : significant false tokens = []
    · have hblank := parse_of_blank hne
      rw [left] at hblank
      have hnil : nodes = [] := List.map_eq_nil_iff.mp (Except.ok.inj hblank)
      rw [hnil]
      rfl
    · have halike := alike_unnumber hlexed hlexed' hne hc
      obtain ⟨_, hok, steps, -⟩ := (isFile_of_parse htext left).1.consolidate_ok
      obtain ⟨_, hok', steps', -⟩ := (isFile_of_parse htext' right).1.consolidate_ok
      exact (filePlan_alike halike hok steps hok' steps').symm

/-- A string over two lines, and in one of the texts more blanks and more blank lines. -/
theorem format_eq_of_canonical_eq_blanks :
    ∃ tokens tokens',
      readTokens [] (.text "a  =\t\"x\ny\"//  c  \n\n\n\n b=1") = .ok tokens ∧
      readTokens "f" (.text "a=\"x\ny\" //  c\n  \nb = 1") = .ok tokens' ∧
      canonical tokens = canonical tokens' ∧
      ((∃ report report', parse tokens = .error (.rejected report) ∧
          parse tokens' = .error (.rejected report')) ∨
        ∃ nodes nodes' text, parse tokens = .ok nodes ∧ parse tokens' = .ok nodes' ∧
          format [] (.text "a  =\t\"x\ny\"//  c  \n\n\n\n b=1") = .ok text ∧
          format "f" (.text "a=\"x\ny\" //  c\n  \nb = 1") = .ok text) := by
  have hsame : (readTokens [] (.text "a  =\t\"x\ny\"//  c  \n\n\n\n b=1")).toOption.map canonical =
      (readTokens "f" (.text "a=\"x\ny\" //  c\n  \nb = 1")).toOption.map canonical := by
    decide +kernel
  have hread : (readTokens [] (.text "a  =\t\"x\ny\"//  c  \n\n\n\n b=1")).toOption.isSome := by
    decide +kernel
  cases ht : readTokens [] (.text "a  =\t\"x\ny\"//  c  \n\n\n\n b=1") with
  | error e => rw [ht] at hread; cases hread
  | ok tokens =>
    cases ht' : readTokens "f" (.text "a=\"x\ny\" //  c\n  \nb = 1") with
    | error e => rw [ht, ht'] at hsame; cases hsame
    | ok tokens' =>
      rw [ht, ht'] at hsame
      have hc : canonical tokens = canonical tokens' := Option.some.inj hsame
      exact ⟨tokens, tokens', rfl, rfl, hc, format_eq_of_canonical_eq ht ht' hc⟩

end Formatting

end DpLang
