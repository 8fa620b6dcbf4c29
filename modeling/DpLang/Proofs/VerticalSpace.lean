import DpLang.Proofs.KeptComments
import DpLang.Proofs.LineEnds

/-!
# Vertical space

A formatted file is empty, or it does not start with a line end, ends with exactly one and has no more
than one blank line in a row. This holds if no literal of the source has a line end in it.
-/

namespace DpLang

section Pieces

/-- There are never three line ends in a row, with `count` of them in front. -/
def LinesFit : Nat → List Piece → Prop
  | _, [] => True
  | count, p :: pieces => if p.1 = .newline then count < 2 ∧ LinesFit (count + 1) pieces else LinesFit 0 pieces

variable {pieces front back : List Piece} {text above below : Text}

/-- Tidy pieces have no line ends at their ends, so what stands around them may have two. -/
lemma Tidy.linesFit (h : Tidy pieces) {count : Nat} (hcount : count ≤ 2) {rest : List Piece}
    (hrest : LinesFit 0 rest) : LinesFit count (pieces ++ rest) := by
  induction h generalizing count rest with
  | piece hp =>
    rw [List.singleton_append, LinesFit, if_neg hp.1]
    exact hrest
  | apart gap hfront hback ihfront ihback =>
    rw [List.append_assoc, List.append_assoc]
    apply ihfront hcount
    cases gap with
    | sameLine => exact ihback (by decide) hrest
    | nextLine => exact ⟨by decide, ihback (by decide) hrest⟩
    | blankLine => exact ⟨by decide, by decide, ihback (by decide) hrest⟩

lemma not_linesFit {count : Nat} :
    ¬ LinesFit count (front ++ linePiece :: linePiece :: linePiece :: back) := by
  induction front generalizing count with
  | nil =>
    rintro ⟨-, -, h, -⟩
    omega
  | cons p front ih =>
    intro h
    rw [List.cons_append, LinesFit] at h
    split at h
    · exact ih h.2
    · exact ih h

lemma Tidy.onLine (h : Tidy pieces) : ∀ p ∈ pieces, p = linePiece ∨ OnLine p := by
  induction h with
  | piece hp => exact List.forall_mem_singleton.2 (.inr hp)
  | apart gap hfront hback ihfront ihback =>
    have hgap : ∀ p ∈ gap.pieces, p = linePiece ∨ OnLine p := by
      cases gap <;> simp [Gap.pieces]
    exact mem_append_of (mem_append_of ihfront hgap) ihback

lemma Scan.split_line (h : Scan text pieces) (hpieces : ∀ p ∈ pieces, p = linePiece ∨ OnLine p)
    (htext : text = above ++ '\n' :: below) :
    ∃ front back, pieces = front ++ linePiece :: back ∧ (above = [] → front = []) ∧ Scan below back := by
  induction h generalizing above with
  | nil => simp at htext
  | @blank c rest pieces hblank scan ih =>
    cases above with
    | nil =>
      obtain ⟨rfl, -⟩ := List.cons.inj htext
      exact absurd hblank (by decide)
    | cons d above =>
      obtain ⟨front, back, heq, -, hback⟩ := ih hpieces (List.cons.inj htext).2
      exact ⟨front, back, heq, by simp, hback⟩
  | @piece kind text rest pieces lexeme visible apart scan ih =>
    obtain ⟨hpiece, hothers⟩ := List.forall_mem_cons.1 hpieces
    rcases hpiece with hline | honline
    · obtain ⟨rfl, rfl⟩ := Prod.mk.inj hline
      cases above with
      | nil =>
        obtain rfl := (List.cons.inj htext).2
        exact ⟨[], pieces, rfl, fun _ => rfl, scan⟩
      | cons d above =>
        obtain ⟨front, back, heq, -, hback⟩ := ih hothers (List.cons.inj htext).2
        exact ⟨linePiece :: front, back, by rw [heq]; rfl, by simp, hback⟩
    · have hnone : '\n' ∉ text := by
        cases hflat : kind.isFlat with
        | true => exact lexeme.newline_not_mem hflat
        | false => exact honline.2 hflat
      have hsplit : ∃ more, above = text ++ more ∧ rest = more ++ '\n' :: below := by
        rcases List.append_eq_append_iff.1 htext with ⟨more, habove, hrest⟩ | ⟨more, hkind, hrest⟩
        · exact ⟨more, habove, hrest⟩
        · cases more with
          | nil => exact ⟨[], by simpa using hkind.symm, hrest.symm⟩
          | cons d more =>
            obtain ⟨rfl, -⟩ := List.cons.inj hrest
            exact absurd (hkind ▸ by simp) hnone
      obtain ⟨more, rfl, hrest⟩ := hsplit
      obtain ⟨front, back, heq, -, hback⟩ := ih hothers hrest
      refine ⟨(kind, text) :: front, back, by rw [heq]; rfl, fun hnil => ?_, hback⟩
      exact absurd (List.append_eq_nil_iff.1 hnil).1 lexeme.ne_nil

lemma Scan.head_line (h : Scan ('\n' :: below) pieces) (hpieces : ∀ p ∈ pieces, p = linePiece ∨ OnLine p) :
    ∃ back, pieces = linePiece :: back ∧ Scan below back := by
  obtain ⟨front, back, heq, hfront, hback⟩ := h.split_line hpieces (List.nil_append _).symm
  rw [hfront rfl] at heq
  exact ⟨back, heq, hback⟩

end Pieces

section Texts

/-- Where the line ends of a text stand. -/
structure VerticallyTidy (text : Text) : Prop where
  start : text.head? ≠ some '\n'
  stop : ∃ body, text = body ++ ['\n'] ∧ body.getLast? ≠ some '\n'
  blanks : ¬ ['\n', '\n', '\n'] <:+: text

lemma Scan.verticallyTidy {text : Text} {pieces : List Piece} (h : Scan text pieces) (hlines : Lines pieces)
    (hlast : text.getLast? = some '\n') : VerticallyTidy text := by
  obtain ⟨body, hbody, rfl⟩ := hlines
  have hpieces : ∀ p ∈ body ++ [linePiece], p = linePiece ∨ OnLine p :=
    mem_append_of hbody.onLine (by simp)
  have hfits {count : Nat} (hcount : count ≤ 2) : LinesFit count (body ++ [linePiece]) :=
    hbody.linesFit hcount ⟨by decide, trivial⟩
  constructor
  case start =>
    intro hstart
    obtain ⟨below, rfl⟩ := List.head?_eq_some_iff.1 hstart
    obtain ⟨back, heq, -⟩ := h.head_line hpieces
    have htwo := hfits (Nat.le_refl 2)
    rw [heq] at htwo
    exact absurd htwo.1 (Nat.lt_irrefl 2)
  case stop =>
    obtain ⟨above, rfl⟩ := List.getLast?_eq_some_iff.1 hlast
    refine ⟨above, rfl, fun habove => ?_⟩
    obtain ⟨more, rfl⟩ := List.getLast?_eq_some_iff.1 habove
    obtain ⟨front, back, heq, -, hback⟩ := h.split_line hpieces (List.append_assoc _ _ _)
    obtain ⟨rest, rfl, hrest⟩ := hback.head_line fun p hp => hpieces p (heq ▸ by simp [hp])
    have hbodyEnds : body ++ [linePiece] = (front ++ [linePiece]) ++ [linePiece] := by
      rw [heq, hrest.eq_nil]
      simp
    obtain ⟨rfl, -⟩ := List.append_inj' hbodyEnds rfl
    have htwo : LinesFit 0 [linePiece, linePiece] := ⟨by decide, by decide, trivial⟩
    have hthree := hbody.linesFit (Nat.zero_le 2) htwo
    rw [List.append_assoc] at hthree
    exact not_linesFit hthree
  case blanks =>
    rintro ⟨above, below, rfl⟩
    rw [List.append_assoc] at h
    obtain ⟨front, back, heq, -, hback⟩ := h.split_line hpieces rfl
    obtain ⟨rest, rfl, hrest⟩ := hback.head_line fun p hp => hpieces p (heq ▸ by simp [hp])
    obtain ⟨last, rfl, -⟩ := hrest.head_line fun p hp => hpieces p (heq ▸ by simp [hp])
    have hthree := hfits (Nat.zero_le 2)
    rw [heq] at hthree
    exact not_linesFit hthree

lemma GroupPlan.write_getLast {group : GroupPlan} (h : group.HasLines) (page : Page) :
    (group.write page).value.getLast? = some '\n' := by
  have hends (page : Page) (text : Text) (hlast : text.getLast? = some '\n') :
      (page.write text).value.getLast? = some '\n' := by
    rw [Page.value_write, List.getLast?_append, hlast]
    rfl
  obtain ⟨gap, head, member⟩ := group
  rw [GroupPlan.write]
  dsimp only
  generalize (if gap then page.write ['\n'] else page) = page
  cases member with
  | nothing =>
    have hne : head ≠ [] := by
      rintro rfl
      obtain ⟨body, -, heq⟩ := h
      simp [commentLinePieces, MemberPlan.pieces] at heq
    apply hends
    rw [← List.dropLast_append_getLast hne, commentLinesOf, List.flatMap_append, List.flatMap_singleton,
      List.getLast?_append, List.getLast?_append]
    rfl
  | constant isPublic name value tail => exact hends _ _ (by simp)
  | function f => exact hends _ _ rfl
  | typeDef isPublic name fields =>
    rw [MemberPlan.write, writeTypeOf]
    dsimp only
    split
    · exact hends _ _ rfl
    · exact hends _ _ rfl
  | imports entries leftovers =>
    apply hends
    rw [blockText, List.getLast?_append]
    rfl

lemma planText_getLast {groups : List GroupPlan} (h : ∀ group ∈ groups, group.HasLines) (hne : groups ≠ []) :
    (planText groups).getLast? = some '\n' := by
  rw [planText, ← List.dropLast_append_getLast hne, List.foldl_append]
  exact GroupPlan.write_getLast (h _ (List.getLast_mem hne)) _

lemma unbroken_of_parse {tokens : List Token} {nodes : List Node} (hp : parse tokens = .ok nodes)
    (h : ∀ t ∈ tokens, t.kind = .string ∨ t.kind = .character → '\n' ∉ t.text) : Unbroken nodes := by
  intro n hn kept hkept hflat
  obtain ⟨finish, hfinish⟩ : ∃ finish, ∀ t ∈ (solidTokens tokens).getLast?, t.stop = finish :=
    ⟨((solidTokens tokens).getLast?.map Token.stop).getD .unknown, by intro t ht; rw [ht]; rfl⟩
  have hall := (derives_of_parse hp hfinish).keptTexts
  rw [keptIn_nodes, List.filterMap_nil, List.append_nil] at hall
  have hmem : kept ∈ keptTexts nodes := List.mem_filterMap.2 ⟨n, hn, hkept⟩
  rw [← hall] at hmem
  obtain ⟨t, hsolid, htext⟩ := List.mem_filterMap.1 hmem
  have ht : t ∈ tokens := (List.mem_filter.1 hsolid).1
  unfold Token.keptText? at htext
  split at htext
  · next hkind =>
    obtain rfl := Option.some.inj htext
    apply h t ht
    cases hk : t.kind <;> simp_all [TokenKind.isFlat, TokenKind.isKept]
  · cases htext

/-- A file that can be read is laid out without blank lines at its ends and without two of them together. -/
theorem format_vertical_space {path : Text} {source : Source} {tokens : List Token} {nodes : List Node}
    (htokens : readTokens path source = .ok tokens) (hparse : parse tokens = .ok nodes)
    (hliterals : ∀ t ∈ tokens, t.kind = .string ∨ t.kind = .character → '\n' ∉ t.text) :
    ∃ output, format path source = .ok output ∧ (output = [] ∨ VerticallyTidy output) := by
  obtain ⟨original, horiginal⟩ := tokenize_of_readTokens htokens
  obtain ⟨hfile, -⟩ := isFile_of_parse horiginal hparse
  obtain ⟨hlines, hfirst⟩ := hfile.groups_hasLines (unbroken_of_parse hparse hliterals)
  refine ⟨_, format_of_parse htokens hparse, ?_⟩
  by_cases hne : filePlan nodes = []
  · rw [hne]
    exact .inl rfl
  · exact .inr ((planText_scan hfile.plan_wf).verticallyTidy (lines_file hlines hfirst hne)
      (planText_getLast hlines hne))

/-- Blank lines around comments, imports, statements and values. -/
theorem format_vertical_space_everywhere :
    let source : Text :=
      ("\n\n\n// a\n\n\n\nf() \x7b\n\n\nimport \"a/p\" (x)\n\n\ng(\n\n\n1, // b\n\n\n" : Text) ++
        ("\"s\")\n\n\nreturn\n\n\n\x7d" : Text) ++
        ("\n\n\nimport \x7b\n\n\n\"a/p\"\n\n\n// c\n\x7d\n\n\nk = 1 // d\n\n\n" : Text)
    let output : Text :=
      ("// a\n\nimport \x7b\n\t\"a/p\" (x)\n\n\t// c\n\x7d\n\nf() () \x7b\n\n\tg(\n\n\t\t1, // b" : Text) ++
        ("\n\n\t\t\"s\",\n\t)\n\x7d\n\nk = 1 // d\n" : Text)
    ∃ tokens nodes, readTokens [] (.text source) = .ok tokens ∧ parse tokens = .ok nodes ∧
      (∀ t ∈ tokens, t.kind = .string ∨ t.kind = .character → '\n' ∉ t.text) ∧
      format [] (.text source) = .ok output ∧ (output = [] ∨ VerticallyTidy output) := by
  intro source output
  have hformat : format [] (.text source) = .ok output := ok_of_toOption (by decide +kernel)
  have hcheck : ((readTokens [] (.text source)).toOption.any fun tokens => decide
      (∀ t ∈ tokens, t.kind = .string ∨ t.kind = .character → '\n' ∉ t.text)) = true := by decide +kernel
  obtain ⟨tokens, nodes, htokens, hparse⟩ := parse_of_format hformat
  rw [htokens] at hcheck
  have hliterals := of_decide_eq_true hcheck
  obtain ⟨written, hwritten, htidy⟩ := format_vertical_space htokens hparse hliterals
  obtain rfl := Except.ok.inj (hwritten.symm.trans hformat)
  exact ⟨tokens, nodes, htokens, hparse, hliterals, hformat, htidy⟩

end Texts

end DpLang
