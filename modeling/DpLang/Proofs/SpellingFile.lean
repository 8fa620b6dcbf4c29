import DpLang.Proofs.SpellingStatement

/-!
# Files that spell their plans

Definitions, import blocks and files. Every member of a file ends with a line end, so what stands
behind it never runs together with it, and the text of a plan is cut into exactly its pieces.
-/

namespace DpLang

section Members

variable {α : Type} {page : Page} {pieces more : List Piece} {last : Option TokenKind}

def RowsFit (fits : α → List Nat → Prop) : List (Member α) → List (Option (List Nat)) → Prop
  | [], _ => True
  | .comment _ _ :: members, rows => RowsFit fits members rows.tail
  | .item _ a :: members, rows =>
    fits a ((rows.head?.getD none).getD []) ∧ RowsFit fits members rows.tail

/-- Each width is larger than the length of its value. -/
def RoomyColumns (columns : α → List Text) (a : α) (widths : List Nat) : Prop :=
  List.Forall₂ (fun value width => value.length < width) (columns a) widths

lemma rowsFit_of_roomy {columns : α → List Text} {members : List (Member α)}
    {rows : List (Option (List Nat))} {afterComment : Bool}
    (hgaps : GapsOk afterComment (members.map Member.mark))
    (h : List.Forall₂ RowPlan.Roomy (members.map (Member.row columns)) rows) :
    RowsFit (RoomyColumns columns) members rows := by
  induction members generalizing rows afterComment with
  | nil => trivial
  | cons member members ih =>
    cases h with
    | @cons _ row _ rows hrow hrows =>
      cases member with
      | comment gap text => exact ih hgaps.2 hrows
      | item gap a => exact ⟨hrow fun hs => Bool.noConfusion (hgaps.1 hs).1, ih hgaps.2 hrows⟩

lemma rowsFit_trivial (members : List (Member α)) (rows : List (Option (List Nat))) :
    RowsFit (fun _ _ => True) members rows := by
  induction members generalizing rows with
  | nil => trivial
  | cons member members ih =>
    cases member with
    | comment gap text => exact ih _
    | item gap a => exact ⟨trivial, ih _⟩

lemma memberEntries_spell {P : α → Prop} {fits : α → List Nat → Prop} {item : α → List Piece}
    {code : List Nat → α → Text}
    (hcode : ∀ a widths, P a → fits a widths →
      ∃ last, (last ≠ some .space ∧ last ≠ some .comment) ∧ Spells (code widths a) (item a) last)
    {members : List (Member α)} {rows : List (Option (List Nat))} {afterComment : Bool}
    (hgaps : GapsOk afterComment (members.map Member.mark))
    (heach : ∀ member ∈ members, member.Satisfies P) (hrows : RowsFit fits members rows) :
    EntriesSpell afterComment (memberEntries code rows members) (memberPieces item members) := by
  induction members generalizing rows afterComment with
  | nil => exact .nil
  | cons member members ih =>
    rw [List.forall_mem_cons] at heach
    obtain ⟨hgap, hgaps⟩ := hgaps
    cases member with
    | comment gap text =>
      exact .comment (fun hg => (hgap hg).2) rfl heach.1 (ih hgaps heach.2 hrows)
    | item gap a =>
      obtain ⟨last, hlast, hspells⟩ := hcode a _ heach.1 hrows.1
      exact .code (fun hg => (hgap hg).2) hspells hlast (ih hgaps heach.2 hrows.2)

lemma memberPieces_isEmpty {item : α → List Piece} {members : List (Member α)}
    (h : GapsOk false (members.map Member.mark)) :
    (memberPieces item members).isEmpty = members.isEmpty := by
  match members with
  | [] => rfl
  | .comment gap text :: members => simp [memberPieces]
  | .item gap a :: members =>
    have hgap := gap_pieces_ne fun hs => Bool.noConfusion (h.1 hs).1
    simp [memberPieces, hgap]

lemma row_spells {values : List Text} {parts : List (List Piece)} {widths : List Nat}
    (hne : values ≠ []) (hparts : List.Forall₂ (IsPart none) values parts)
    (hw : List.Forall₂ (fun value width => value.length < width) values widths) :
    (writeRow (.indented 1) values widths).Closed parts.flatten := by
  have hstart : (Page.indented 1).Spells [] none := Page.spells_of_value rfl
  exact writeRow_spells hstart hne hparts hw

lemma ParameterPlan.code_spells (p : ParameterPlan) (widths : List Nat)
    (hwf : IsLexeme .word p.name ∧ p.type.WF) (hw : RoomyColumns ParameterPlan.columns p widths) :
    ∃ last, (last ≠ some .space ∧ last ≠ some .comment) ∧
      Spells (p.code widths) (p.pieces ++ [symbolPiece .comma]) last := by
  have hrow := row_spells (List.cons_ne_nil _ _)
    (.cons (isPart_word opens_none hwf.1) (.cons (TypeExpr.text_part hwf.2).free .nil)) hw
  have hcomma := hrow.write_symbol .comma
  rw [Page.Spells, Page.value_write] at hcomma
  refine ⟨some (.symbol .comma), ⟨nofun, nofun⟩, ?_⟩
  simpa [ParameterPlan.pieces, ParameterPlan.code, ParameterPlan.columns, Symbol.spelling] using hcomma

lemma resultCode_spells (type : TypeExpr) (widths : List Nat) (hwf : type.WF) (_ : True) :
    ∃ last, (last ≠ some .space ∧ last ≠ some .comment) ∧
      Spells (resultCode widths type) (type.pieces ++ [symbolPiece .comma]) last :=
  ⟨some (.symbol .comma), ⟨nofun, nofun⟩, (TypeExpr.text_part hwf).free.with_comma⟩

lemma isLexeme_access (access : FieldAccess) : IsLexeme .word access.text := by
  unfold IsLexeme
  cases access <;> decide

lemma FieldPlan.code_spells (f : FieldPlan) (widths : List Nat) (hwf : f.WF)
    (hw : RoomyColumns FieldPlan.columns f widths) :
    ∃ last, (last ≠ some .space ∧ last ≠ some .comment) ∧ Spells (f.code widths) f.pieces last := by
  have hname := isPart_word opens_none hwf.1
  have htype := (TypeExpr.text_part hwf.2).free
  have haccess := isPart_word opens_none (isLexeme_access f.access)
  have hdone (parts : List (List Piece)) (hparts : List.Forall₂ (IsPart none) f.columns parts)
      (hne : f.columns ≠ []) (hpieces : parts.flatten = f.pieces) :
      ∃ last, (last ≠ some .space ∧ last ≠ some .comment) ∧ Spells (f.code widths) f.pieces last := by
    obtain ⟨kind, hkind, hspells⟩ := row_spells hne hparts hw
    rw [hpieces] at hspells
    exact ⟨some kind, closes_ne hkind, hspells⟩
  by_cases ha : f.access = .hidden
  · have hcolumns : f.columns = [f.name, f.type.text] := by simp [FieldPlan.columns, ha]
    refine hdone [[wordPiece f.name], f.type.pieces] ?_ (by simp [hcolumns]) ?_
    · rw [hcolumns]
      exact .cons hname (.cons htype .nil)
    · simp [FieldPlan.pieces, ha]
  · have hcolumns : f.columns = [f.name, f.type.text, f.access.text] := by simp [FieldPlan.columns, ha]
    refine hdone [[wordPiece f.name], f.type.pieces, [wordPiece f.access.text]] ?_ (by simp [hcolumns]) ?_
    · rw [hcolumns]
      exact .cons hname (.cons htype (.cons haccess .nil))
    · simp [FieldPlan.pieces, ha]

lemma memberParens_spells {entries : List Entry} (he : EntriesSpell false entries more)
    (h : page.Spells pieces last) (hl : Follows last '(') :
    ((memberStyle.write entries (page.write ['('])).write "\n) ").Spells
      (pieces ++ inParens (more ++ [linePiece])) none := by
  have hopen := h.write_symbol .parenLeft hl
  have hlines := memberStyle.write_spells he hopen nofun nofun
  have hclose := (hlines.write_free (spells_symbol .parenRight)).write_blank nofun nofun
  rw [Page.write_append, Page.write_append] at hclose
  have hpieces : pieces ++ inParens (more ++ [linePiece]) =
      pieces ++ [symbolPiece .parenLeft] ++ more ++ [linePiece] ++ [symbolPiece .parenRight] := by
    simp [inParens]
  rw [hpieces]
  exact hclose

end Members

section Functions

variable {page : Page} {pieces more : List Piece} {last : Option TokenKind}

lemma spells_parens {parts : List (Text × List Piece)}
    (hparts : ∀ part ∈ parts, IsPart none part.1 part.2 ∧
      IsPart (some (.symbol .parenLeft)) part.1 part.2) :
    Spells ('(' :: Text.join ", " (parts.map Prod.fst) ++ [')'])
      (inParens (joined .comma (parts.map Prod.snd))) (some (.symbol .parenRight)) := by
  cases parts with
  | nil =>
    exact (spells_symbol .parenLeft).append (spells_symbol .parenRight) (by simp) fun c _ =>
      follows_symbol (joins_parenLeft c)
  | cons first parts =>
    rw [List.forall_mem_cons] at hparts
    have hjoin := isPart_join spells_comma ⟨',', [' '], rfl, by decide⟩ first hparts.1.2
      fun part hpart => (hparts.2 part hpart).1
    obtain ⟨kind, hkind, hspells⟩ := hjoin.spells
    have hopen := (spells_symbol .parenLeft).append hspells (fun hn => absurd hn hjoin.ne_nil)
      hjoin.follows
    exact hopen.append (spells_symbol .parenRight) (by simp) fun c hc => by
      obtain rfl := Option.some.inj hc
      exact follows_closes hkind (by decide)

lemma parens_spells {parts : List (Text × List Piece)}
    (hparts : ∀ part ∈ parts, IsPart none part.1 part.2 ∧
      IsPart (some (.symbol .parenLeft)) part.1 part.2) (h : page.Spells pieces last)
    (hl : Follows last '(') :
    (page.write ('(' :: Text.join ", " (parts.map Prod.fst) ++ (") " : Text))).Spells
      (pieces ++ inParens (joined .comma (parts.map Prod.snd))) none := by
  have hclose := (h.write (spells_parens hparts) (by simp) fun c hc => by
    obtain rfl := Option.some.inj hc
    exact hl).write_blank nofun nofun
  rw [Page.write_append, List.append_assoc] at hclose
  exact hclose

/-- Parameters on one line, each by its text and its pieces. -/
def parameterParts : List ParameterPlan → List (Text × List Piece)
  | [] => []
  | [p] => [(p.name ++ ' ' :: p.type.text, p.pieces)]
  | p :: next :: params =>
    (if p.type = next.type then (p.name, [wordPiece p.name])
      else (p.name ++ ' ' :: p.type.text, p.pieces)) :: parameterParts (next :: params)

lemma parameterParts_fst (params : List ParameterPlan) :
    (parameterParts params).map Prod.fst =
      parametersText (params.map fun p => (p.name, p.type)) := by
  match params with
  | [] => rfl
  | [p] => rfl
  | p :: next :: params =>
    have ih := parameterParts_fst (next :: params)
    rw [parameterParts, List.map_cons, ih]
    change _ = (if p.type = next.type then p.name else p.name ++ ' ' :: p.type.text) :: _
    split <;> rfl

lemma parameterParts_snd (params : List ParameterPlan) :
    joined .comma ((parameterParts params).map Prod.snd) = inlineParameters params := by
  match params with
  | [] => rfl
  | [p] => simp [parameterParts, joined, inlineParameters]
  | p :: next :: params =>
    have ih := parameterParts_snd (next :: params)
    rw [inlineParameters, ← ih, parameterParts]
    cases hrest : (parameterParts (next :: params)).map Prod.snd with
    | nil => cases params <;> simp [parameterParts] at hrest
    | cons part parts =>
      rw [List.map_cons, hrest, joined_cons_cons]
      split <;> rfl

lemma typed_isPart (ho : Opens last) {name : Text} (hname : IsLexeme .word name) {type : TypeExpr}
    (htype : type.WF) : IsPart last (name ++ ' ' :: type.text) (wordPiece name :: type.pieces) := by
  have hword := isPart_word ho hname
  obtain ⟨c, rest, rfl⟩ := List.exists_cons_of_ne_nil hword.ne_nil
  obtain ⟨kind, hkind, hspells⟩ := (TypeExpr.text_part htype).free.spells
  have hblank : Spells [' '] [] none := spells_blanks (by simp; decide)
  refine ⟨by simp, hword.follows, kind, hkind, ?_⟩
  have hfront := (spells_word hname).append hblank (by simp) fun c hc => by
    obtain rfl := Option.some.inj hc
    exact follows_blank nofun nofun
  have := hfront.append hspells (fun _ => rfl) fun c _ => follows_none c
  simpa using this

lemma parameterParts_isPart {params : List ParameterPlan}
    (h : ∀ p ∈ params, IsLexeme .word p.name ∧ p.type.WF) (ho : Opens last) :
    ∀ part ∈ parameterParts params, IsPart last part.1 part.2 := by
  match params with
  | [] => simp [parameterParts]
  | [p] =>
    rw [List.forall_mem_cons] at h
    rw [parameterParts, List.forall_mem_singleton]
    exact typed_isPart ho h.1.1 h.1.2
  | p :: next :: params =>
    rw [List.forall_mem_cons] at h
    rw [parameterParts, List.forall_mem_cons]
    refine ⟨?_, parameterParts_isPart h.2 ho⟩
    split
    · exact isPart_word ho h.1.1
    · exact typed_isPart ho h.1.1 h.1.2

lemma memberItems_satisfy {α : Type} {P : α → Prop} {members : List (Member α)}
    (h : ∀ member ∈ members, member.Satisfies P) : ∀ a ∈ memberItems members, P a := by
  induction members with
  | nil => simp [memberItems]
  | cons member members ih =>
    rw [List.forall_mem_cons] at h
    cases member with
    | comment gap text => exact ih h.2
    | item gap a => exact List.forall_mem_cons.2 ⟨h.1, ih h.2⟩

lemma writeParametersOf_spells {spread : Bool} {params : List (Member ParameterPlan)}
    (hwf : MembersWF (fun p => IsLexeme .word p.name ∧ p.type.WF) spread params)
    (h : page.Spells pieces last) (hl : Follows last '(') :
    (writeParametersOf spread params page).Spells (pieces ++ parametersPieces spread params) none := by
  rw [writeParametersOf, parametersPieces]
  cases spread with
  | true =>
    have hrows := rowsFit_of_roomy hwf.gaps
      (widthsOf_roomy (params.map (Member.row ParameterPlan.columns)))
    exact memberParens_spells (memberEntries_spell ParameterPlan.code_spells hwf.gaps hwf.each hrows) h hl
  | false =>
    have hitems := memberItems_satisfy hwf.each
    have hparens := parens_spells (fun part hpart =>
      ⟨parameterParts_isPart hitems opens_none part hpart,
        parameterParts_isPart hitems (opens_symbol _) part hpart⟩) h hl
    rw [parameterParts_fst, parameterParts_snd] at hparens
    exact hparens

lemma writeResultsOf_spells {spread : Bool} {results : List (Member TypeExpr)}
    (hwf : MembersWF TypeExpr.WF spread results) (h : page.Spells pieces none) :
    (writeResultsOf spread results page).Spells (pieces ++ resultsPieces spread results) none := by
  rw [writeResultsOf, resultsPieces]
  cases spread with
  | true =>
    exact memberParens_spells
      (memberEntries_spell resultCode_spells hwf.gaps hwf.each (rowsFit_trivial _ _)) h (follows_none _)
  | false =>
    have hitems := memberItems_satisfy hwf.each
    -- one result stands alone, and any other number of them in parentheses
    have hparens (types : List TypeExpr) (htypes : ∀ t ∈ types, t.WF) :
        (page.write ('(' :: Text.join ", " (types.map TypeExpr.text) ++ (") " : Text))).Spells
          (pieces ++ inParens (joined .comma (types.map TypeExpr.pieces))) none := by
      have hparts : ∀ part ∈ types.map fun t => (t.text, t.pieces), IsPart none part.1 part.2 ∧
          IsPart (some (.symbol .parenLeft)) part.1 part.2 := by
        intro part hpart
        obtain ⟨t, ht, rfl⟩ := List.mem_map.1 hpart
        have hpart := TypeExpr.text_part (htypes t ht)
        exact ⟨hpart.free, hpart _ fun kind hkind =>
          ⟨.parenLeft, by decide, (Option.some.inj hkind).symm⟩⟩
      have := parens_spells hparts h (follows_none _)
      simpa only [List.map_map, Function.comp_def] using this
    cases hitem : memberItems results with
    | nil => exact hparens [] (by simp)
    | cons type types =>
      rw [hitem, List.forall_mem_cons] at hitems
      cases types with
      | nil =>
        have htype := (h.write_part (TypeExpr.text_part hitems.1).free).write_blank
        rw [Page.write_append] at htype
        exact htype
      | cons second types => exact hparens _ (List.forall_mem_cons.2 hitems)

lemma publicText_spells (h : page.Spells pieces none) (isPublic : Bool) :
    (page.write (publicText isPublic)).Spells (pieces ++ publicPieces isPublic) none := by
  cases isPublic with
  | false =>
    rw [publicPieces, if_neg Bool.false_ne_true, List.append_nil]
    rw [publicText, if_neg Bool.false_ne_true, Page.write_nil]
    exact h
  | true =>
    have hword : IsLexeme .word ("pub" : Text) := by
      unfold IsLexeme
      decide
    have := (h.write_part (isPart_word opens_none hword)).write_blank
    rw [Page.write_append] at this
    exact this

lemma receiverTextOf_spells (h : page.Spells pieces none) {receiver : Option (Text × TypeExpr)}
    (hwf : ∀ r ∈ receiver, IsLexeme .word r.1 ∧ r.2.WF) :
    (page.write (receiverTextOf receiver)).Spells (pieces ++ receiverPieces receiver) none := by
  cases receiver with
  | none =>
    rw [receiverPieces, receiverTextOf, Page.write_nil, List.append_nil]
    exact h
  | some receiver =>
    obtain ⟨name, type⟩ := receiver
    obtain ⟨hname, htype⟩ := hwf _ rfl
    have hempty : name.isEmpty = false := by simpa using hname.ne_nil
    have hopen := h.write_free (spells_symbol .parenLeft)
    have hclose := ((hopen.write_part (typed_isPart (opens_symbol _) hname htype)).write_symbol
      .parenRight).write_blank (by decide) (by decide)
    rw [receiverPieces, receiverTextOf, hempty, if_neg Bool.false_ne_true]
    rw [Page.write_append, Page.write_append, Page.write_append, List.append_assoc, List.append_assoc]
      at hclose
    simp only [inParens, List.append_assoc, List.cons_append, List.nil_append] at hclose ⊢
    exact hclose

lemma Page.Done.write_newline (h : page.Done pieces) :
    (page.write ['\n']).Spells (pieces ++ [linePiece]) none := by
  obtain ⟨last, hlast, hspells⟩ := h
  exact Page.Spells.write_newline hspells hlast.1

lemma writeBlockOf_spells (level : Nat) {body : List EntryPlan} (hwf : BlockWF body)
    (h : page.Spells pieces none) :
    (writeBlockOf level page body).Closed (pieces ++ inBraces (entriesPieces body)) :=
  blockBraces_spells level hwf.1 (blockEntries_spell level body _ false hwf.1 hwf.2) h

lemma FunctionPlan.write_spells {f : FunctionPlan} (hwf : f.WF) (h : page.Spells pieces none) :
    (f.write page).Spells (pieces ++ f.pieces) none := by
  have hreceiver : ∀ r ∈ f.receiver, IsLexeme .word r.1 ∧ r.2.WF := by
    intro r hr
    have hname := hwf.name
    rw [hr] at hname
    exact hname.1
  have hnameWF : f.name = [] ∨ IsLexeme .word f.name := by
    have hname := hwf.name
    cases hr : f.receiver with
    | none =>
      rw [hr] at hname
      exact .inr hname.1
    | some r =>
      rw [hr] at hname
      exact hname.2
  have hhead := receiverTextOf_spells (publicText_spells h f.isPublic) hreceiver
  -- behind the name or, if there is none, behind a blank
  have hname : ∃ last, Follows last '(' ∧
      (((page.write (publicText f.isPublic)).write (receiverTextOf f.receiver)).write f.name).Spells
        (pieces ++ publicPieces f.isPublic ++ receiverPieces f.receiver ++
          if f.name.isEmpty then [] else [wordPiece f.name]) last := by
    rcases hnameWF with hn | hn
    · rw [hn, List.isEmpty_nil, if_pos rfl, Page.write_nil, List.append_nil]
      exact ⟨none, follows_none _, hhead⟩
    · have hempty : f.name.isEmpty = false := by simpa using hn.ne_nil
      rw [hempty, if_neg Bool.false_ne_true]
      exact ⟨some .word, follows_closes rfl (by decide), hhead.write_free (spells_word hn)⟩
  obtain ⟨last, hl, hname⟩ := hname
  have hparams := writeParametersOf_spells hwf.params hname hl
  have hresults := writeResultsOf_spells hwf.results hparams
  have hbody := (writeBlockOf_spells 1 hwf.body hresults).done.write_newline
  rw [Page.write_append, Page.write_append] at hbody
  have hpieces : pieces ++ f.pieces = pieces ++ publicPieces f.isPublic ++ receiverPieces f.receiver ++
      (if f.name.isEmpty then [] else [wordPiece f.name]) ++ parametersPieces f.spreadParams f.params ++
      resultsPieces f.spreadResults f.results ++ inBraces (entriesPieces f.body) ++ [linePiece] := by
    simp [FunctionPlan.pieces]
  rw [hpieces]
  simpa only [FunctionPlan.write, List.append_assoc] using hbody

end Functions

section Imports

variable {text t : Text} {page : Page} {pieces more : List Piece} {last : Option TokenKind}

lemma Spells.append_free (h : Spells text pieces none) (ht : Spells t more last) :
    Spells (text ++ t) (pieces ++ more) last :=
  h.append ht (fun _ => rfl) fun c _ => follows_none c

lemma spells_line : Spells ['\n'] [linePiece] none :=
  ⟨fun _ _ _ hscan => .piece (by unfold IsLexeme; decide) nofun trivial hscan, by simp⟩

lemma Spells.line (h : Spells text pieces last) (hs : last ≠ some .space) :
    Spells (text ++ ['\n']) (pieces ++ [linePiece]) none :=
  h.append spells_line (by simp) (by simpa using follows_newline hs)

lemma IsCommentText.spells (h : IsCommentText text) : Spells text [commentPiece text] (some .comment) :=
  spells_piece h.1 nofun

lemma commentLinesOf_spells {indentation : Text} (hi : ∀ c ∈ indentation, Token.isSpaceChar c = true)
    {comments : List Text} (h : ∀ comment ∈ comments, IsCommentText comment) :
    Spells (commentLinesOf indentation comments) (commentLinePieces comments) none := by
  induction comments with
  | nil => exact spells_nil
  | cons comment comments ih =>
    rw [List.forall_mem_cons] at h
    have hline := ((spells_blanks hi).append_free h.1.spells).line nofun
    exact hline.append_free (ih h.2)

lemma ofText_cons {c : Char} (hc : c ≠ ':') {rest part : Text} {parts : List Text}
    (h : QualifiedName.ofText rest = part :: parts) :
    QualifiedName.ofText (c :: rest) = (c :: part) :: parts := by
  cases rest with
  | nil =>
    obtain ⟨rfl, rfl⟩ := List.cons.inj h
    rfl
  | cons d rest => rw [QualifiedName.ofText, if_neg fun hboth => hc hboth.1, h]

lemma ofText_word {word rest : Text} {parts : List Text} (hword : ∀ c ∈ word, c ≠ ':')
    (h : QualifiedName.ofText rest = [] :: parts) :
    QualifiedName.ofText (word ++ rest) = word :: parts := by
  induction word with
  | nil => exact h
  | cons c word ih =>
    rw [List.forall_mem_cons] at hword
    exact ofText_cons hword.1 (ih hword.2)

lemma word_no_colon {word : Text} (h : IsLexeme .word word) : ∀ c ∈ word, c ≠ ':' := by
  rintro c hc rfl
  exact absurd (h.shape.1 ':' hc) (by decide)

lemma ofText_names {words : List Text} (h : AreNames words) :
    QualifiedName.ofText (Text.join "::" words) = words := by
  obtain ⟨hne, hall⟩ := h
  induction words with
  | nil => exact absurd rfl hne
  | cons word words ih =>
    rw [List.forall_mem_cons] at hall
    cases words with
    | nil =>
      have := @ofText_word word [] [] (word_no_colon hall.1) rfl
      simpa [Text.join, List.intercalate] using this
    | cons next words =>
      rw [join_cons_cons]
      refine ofText_word (word_no_colon hall.1) ?_
      change [] :: QualifiedName.ofText (Text.join "::" (next :: words)) = _
      rw [ih (by simp) hall.2]

lemma ofText_text {name : QualifiedName} (h : IsQualifiedName name) :
    QualifiedName.ofText name.text = name := by
  obtain ⟨words, hwords, rfl | rfl⟩ := h
  · exact ofText_names hwords
  · obtain ⟨word, rest, rfl⟩ := List.exists_cons_of_ne_nil hwords.1
    rw [QualifiedName.text, join_cons_cons]
    change [] :: QualifiedName.ofText (Text.join "::" (word :: rest)) = _
    rw [ofText_names hwords]

lemma IsNameText.part (h : IsNameText text) :
    PartBehind typeMarks text (QualifiedName.ofText text).pieces := by
  obtain ⟨name, hname, rfl⟩ := h
  rw [ofText_text hname]
  exact QualifiedName.text_part hname

lemma tail_spells (h : Spells text pieces last) (hs : last ≠ some .space) (hc : last ≠ some .comment)
    {tail : Option Text} (ht : ∀ comment ∈ tail, IsCommentText comment) :
    ∃ next, next ≠ some .space ∧
      Spells (text ++ (tail.map (' ' :: ·)).getD []) (pieces ++ (tail.map commentPiece).toList) next := by
  cases tail with
  | none =>
    refine ⟨last, hs, ?_⟩
    simpa using h
  | some comment =>
    have hblank : Spells [' '] [] none := spells_blanks (by simp; decide)
    have hbehind := h.append hblank (by simp) fun c hcc => by
      obtain rfl := Option.some.inj hcc
      exact follows_blank hs hc
    have := hbehind.append_free (ht comment rfl).spells
    refine ⟨some .comment, nofun, ?_⟩
    simpa using this

lemma NameLine.text_spells {line : NameLine} (hwf : line.WF) :
    ∃ last, last ≠ some .space ∧ Spells line.text line.pieces last := by
  have hstart : Spells ("\n\t\t" : Text) [linePiece] none := by
    have hblanks : Spells ['\t', '\t'] [] none := spells_blanks (by simp; decide)
    have := spells_line.append_free hblanks
    rwa [List.append_nil] at this
  cases line with
  | comment text => exact ⟨some .comment, nofun, hstart.append_free (IsCommentText.spells hwf)⟩
  | name text tail =>
    have hname := hstart.append_free hwf.1.part.free.with_comma
    obtain ⟨next, hnext, hspells⟩ := tail_spells hname nofun nofun hwf.2
    refine ⟨next, hnext, ?_⟩
    simpa [NameLine.text, NameLine.pieces] using hspells

/-- Lines among the names of an import. Each starts with a line end, which may stand behind
anything. -/
lemma nameLines_spell {names : List NameLine} (hwf : ∀ line ∈ names, line.WF)
    (h : Spells text pieces last) (hs : last ≠ some .space) :
    ∃ next, next ≠ some .space ∧
      Spells (text ++ names.flatMap NameLine.text) (pieces ++ names.flatMap NameLine.pieces) next := by
  induction names generalizing text pieces last with
  | nil =>
    refine ⟨last, hs, ?_⟩
    simpa using h
  | cons line names ih =>
    rw [List.forall_mem_cons] at hwf
    obtain ⟨own, hown, hline⟩ := NameLine.text_spells hwf.1
    have hhead : ∃ rest, line.text = '\n' :: rest := by cases line <;> exact ⟨_, rfl⟩
    obtain ⟨rest, hrest⟩ := hhead
    have hboth := h.append hline (by simp [hrest]) fun c hc => by
      rw [hrest] at hc
      obtain rfl := Option.some.inj hc
      exact follows_newline hs
    obtain ⟨next, hnext, hspells⟩ := ih hwf.2 hboth hown
    refine ⟨next, hnext, ?_⟩
    simpa using hspells

lemma namesTextOf_spells {names : List NameLine} (hwf : ∀ line ∈ names, line.WF) :
    Spells (namesTextOf names) (namesPieces names) (some (.symbol .parenRight)) := by
  rw [namesTextOf, namesPieces]
  by_cases hbare : names.all NameLine.isBare = true
  · rw [if_pos hbare, if_pos hbare]
    have hparts : ∀ part ∈ names.map fun line =>
        (line.nameText, (QualifiedName.ofText line.nameText).pieces), IsPart none part.1 part.2 ∧
          IsPart (some (.symbol .parenLeft)) part.1 part.2 := by
      intro part hpart
      obtain ⟨line, hline, rfl⟩ := List.mem_map.1 hpart
      have hlineWF := hwf line hline
      cases line with
      | comment text => exact Bool.noConfusion (List.all_eq_true.1 hbare _ hline)
      | name text tail =>
        exact ⟨hlineWF.1.part.free, hlineWF.1.part _ fun kind hkind =>
          ⟨.parenLeft, by decide, (Option.some.inj hkind).symm⟩⟩
    have := spells_parens hparts
    simpa only [List.map_map, Function.comp_def] using this
  · rw [if_neg hbare, if_neg hbare]
    obtain ⟨last, hlast, hlines⟩ := nameLines_spell hwf (spells_symbol .parenLeft) nofun
    have htab : Spells ['\t'] [] none := spells_blanks (by simp; decide)
    have hclose := ((hlines.line hlast).append_free htab).append_free (spells_symbol .parenRight)
    have hpieces : inParens (names.flatMap NameLine.pieces ++ [linePiece]) =
        [symbolPiece .parenLeft] ++ names.flatMap NameLine.pieces ++ [linePiece] ++ [] ++
          [symbolPiece .parenRight] := by simp [inParens]
    have htext : '(' :: names.flatMap NameLine.text ++ ("\n\t)" : Text) =
        Symbol.parenLeft.spelling ++ names.flatMap NameLine.text ++ ['\n'] ++ ['\t'] ++
          Symbol.parenRight.spelling := by
      rw [List.append_assoc, List.append_assoc]
      rfl
    rw [hpieces, htext]
    exact hclose

lemma IsPathText.spells (h : IsPathText text) (hne : text ≠ []) :
    Spells text [(.string, text)] (some .string) :=
  spells_piece (h.resolve_left hne).1 nofun

lemma pathNames_spell {path : Text} (hpath : IsPathText path) {names : List NameLine}
    (hwf : ∀ line ∈ names, line.WF) :
    ∃ last, (last ≠ some .space ∧ last ≠ some .comment) ∧
      Spells ('\t' :: path ++ if names.isEmpty then []
          else (if path.isEmpty then [] else [' ']) ++ namesTextOf names)
        ((if path.isEmpty then [] else [(.string, path)]) ++
          if names.isEmpty then [] else namesPieces names) last := by
  have htab : Spells ['\t'] [] none := spells_blanks (by simp; decide)
  cases hp : path.isEmpty with
  | true =>
    obtain rfl := List.isEmpty_iff.1 hp
    cases names.isEmpty with
    | true => exact ⟨none, ⟨nofun, nofun⟩, htab⟩
    | false =>
      exact ⟨some (.symbol .parenRight), ⟨nofun, nofun⟩, htab.append_free (namesTextOf_spells hwf)⟩
  | false =>
    have hpath := htab.append_free (hpath.spells (by simpa using hp))
    cases names.isEmpty with
    | true =>
      refine ⟨some .string, ⟨nofun, nofun⟩, ?_⟩
      simpa using hpath
    | false =>
      have hblank : Spells [' '] [] none := spells_blanks (by simp; decide)
      have hspace := hpath.append hblank (by simp) fun c hc => by
        obtain rfl := Option.some.inj hc
        exact follows_blank nofun nofun
      have := hspace.append_free (namesTextOf_spells hwf)
      refine ⟨some (.symbol .parenRight), ⟨nofun, nofun⟩, ?_⟩
      simpa using this

lemma ImportPlan.pathLine_spells {entry : ImportPlan} (hwf : entry.WF) :
    Spells entry.pathLine entry.linePieces none := by
  obtain ⟨last, hlast, hnames⟩ := pathNames_spell hwf.path hwf.names
  obtain ⟨next, hnext, htail⟩ := tail_spells hnames hlast.1 hlast.2 hwf.tail
  have hline := htail.line hnext
  simpa only [ImportPlan.pathLine, ImportPlan.linePieces, List.append_assoc] using hline

lemma ImportPlan.text_spells {entry : ImportPlan} (hwf : entry.WF) (previous : Option Text) :
    Spells (entry.text previous) (entry.pieces previous) none := by
  have hhead : Spells (commentLinesOf ['\t'] entry.head) (commentLinePieces entry.head) none :=
    commentLinesOf_spells (by simp; decide) hwf.head
  have hgap : Spells (if previous.any fun path => pathGroup path ≠ pathGroup entry.path then ['\n'] else [])
      (if previous.any fun path => pathGroup path ≠ pathGroup entry.path then [linePiece] else []) none := by
    split
    · exact spells_line
    · exact spells_nil
  exact (hgap.append_free hhead).append_free (ImportPlan.pathLine_spells hwf)

lemma importsText_spells {leftovers : List Text} (hl : ∀ comment ∈ leftovers, IsCommentText comment)
    {entries : List ImportPlan} (hwf : ∀ entry ∈ entries, entry.WF) (previous : Option Text) :
    Spells (importsText leftovers previous entries) (importsPieces leftovers previous entries) none := by
  induction entries generalizing previous with
  | nil =>
    rw [importsText, importsPieces]
    cases leftovers.isEmpty with
    | true => exact spells_nil
    | false => exact spells_line.append_free (commentLinesOf_spells (by simp; decide) hl)
  | cons entry entries ih =>
    rw [List.forall_mem_cons] at hwf
    exact (ImportPlan.text_spells hwf.1 previous).append_free (ih hwf.2 _)

end Imports

section Files

variable {page : Page} {pieces : List Piece}

lemma writeTypeOf_spells {isPublic : Bool} {name : Text} (hname : IsDefinedName isPublic name)
    {fields : List (Member FieldPlan)} (hgaps : GapsOk false (fields.map Member.mark))
    (heach : ∀ field ∈ fields, field.Satisfies FieldPlan.WF) (h : page.Spells pieces none) :
    (writeTypeOf isPublic name fields page).Spells
      (pieces ++ MemberPlan.pieces (.typeDef isPublic name fields)) none := by
  have hword :=
    ((publicText_spells h isPublic).write_free (spells_word hname.1)).write_blank (by decide) (by decide)
  have hopen := hword.write_free (spells_symbol .braceLeft)
  rw [Page.write_append, Page.write_append, Page.write_append] at hopen
  rw [writeTypeOf, MemberPlan.pieces, inBraces, memberPieces_isEmpty hgaps]
  cases fields.isEmpty with
  | true =>
    have hclose := (hopen.write_symbol .braceRight
      (follows_opens (opens_symbol _) (by decide) (by decide) (by decide))).write_newline (by decide)
    rw [Page.write_append] at hclose
    simp only [List.append_assoc, List.cons_append, List.nil_append] at hclose ⊢
    exact hclose
  | false =>
    have hrows := rowsFit_of_roomy hgaps (widthsOf_roomy (fields.map (Member.row FieldPlan.columns)))
    have hlines := memberStyle.write_spells (memberEntries_spell FieldPlan.code_spells hgaps heach hrows)
      hopen (by decide) (by decide)
    have hclose := (hlines.write_free (spells_symbol .braceRight)).write_newline (by decide)
    rw [Page.write_append, Page.write_append] at hclose
    rw [if_neg Bool.false_ne_true, if_neg Bool.false_ne_true]
    simp only [List.append_assoc, List.cons_append, List.nil_append] at hclose ⊢
    exact hclose

lemma writeConstantOf_spells {isPublic : Bool} {name : Text} (hname : IsDefinedName isPublic name)
    {value : ExprPlan} (hwf : value.WF) {tail : Option Text} (ht : ∀ comment ∈ tail, IsCommentText comment)
    (h : page.Spells pieces none) :
    (writeConstantOf isPublic name value tail page).Spells
      (pieces ++ MemberPlan.pieces (.constant isPublic name value tail)) none := by
  have hword :=
    ((publicText_spells h isPublic).write_free (spells_word hname.1)).write_blank (by decide) (by decide)
  have hassign := (hword.write_free (spells_symbol .assign)).write_blank (by decide) (by decide)
  obtain ⟨kind, hkind, hvalue⟩ := value.write_spells 1 0 false false hwf hassign opens_none
  obtain ⟨next, hnext, htail⟩ := tail_spells hvalue (closes_ne hkind).1 (closes_ne hkind).2 ht
  have hline := htail.line hnext
  rw [Page.write_append, Page.write_append, Page.write_append, Page.write_append] at hline
  rw [writeConstantOf, MemberPlan.pieces, Page.Spells, Page.value_write]
  simp only [List.append_assoc, List.cons_append, List.nil_append] at hline ⊢
  exact hline

lemma MemberPlan.write_spells {member : MemberPlan} (hwf : member.WF) (h : page.Spells pieces none) :
    (member.write page).Spells (pieces ++ member.pieces) none := by
  cases member with
  | nothing =>
    rw [MemberPlan.pieces, List.append_nil]
    exact h
  | constant isPublic name value tail => exact writeConstantOf_spells hwf.1 hwf.2.1 hwf.2.2 h
  | function f => exact FunctionPlan.write_spells hwf h
  | typeDef isPublic name fields => exact writeTypeOf_spells hwf.1 hwf.2.1 hwf.2.2 h
  | imports entries leftovers =>
    have himport := (h.write_keyword .importKw).write_blank.write_free (spells_symbol .braceLeft)
    have hlines := (himport.write_newline nofun).write_free (importsText_spells hwf.2 hwf.1 none)
    have hclose := (hlines.write_free (spells_symbol .braceRight)).write_newline nofun
    simp only [Page.write_append, List.append_assoc, List.cons_append, List.nil_append] at hclose
    rw [MemberPlan.write, MemberPlan.pieces]
    simp only [List.cons_append]
    exact hclose

lemma GroupPlan.write_spells {group : GroupPlan} (hwf : group.WF) (h : page.Spells pieces none) :
    (group.write page).Spells (pieces ++ group.pieces) none := by
  have hgap : (if group.gap then page.write ['\n'] else page).Spells
      (pieces ++ if group.gap then [linePiece] else []) none := by
    split
    · exact h.write_newline nofun
    · rw [List.append_nil]
      exact h
  have hlines : Spells (commentLinesOf [] group.head) (commentLinePieces group.head) none :=
    commentLinesOf_spells (by simp) hwf.head
  have hhead := hgap.write_free hlines
  have hmember := MemberPlan.write_spells hwf.member hhead
  rw [List.append_assoc, List.append_assoc] at hmember
  rw [GroupPlan.pieces, List.append_assoc]
  exact hmember

/-- The text of a well-formed plan is made of its pieces. -/
theorem planText_scan {groups : List GroupPlan} (hwf : ∀ group ∈ groups, group.WF) :
    Scan (planText groups) (filePieces groups) := by
  have hall {groups : List GroupPlan} (hwf : ∀ group ∈ groups, group.WF) {page : Page}
      {pieces : List Piece} (h : page.Spells pieces none) :
      (groups.foldl GroupPlan.write page).Spells (pieces ++ filePieces groups) none := by
    induction groups generalizing page pieces with
    | nil =>
      rw [filePieces, List.flatMap_nil, List.append_nil]
      exact h
    | cons group groups ih =>
      rw [List.forall_mem_cons] at hwf
      have hrest := ih hwf.2 (GroupPlan.write_spells hwf.1 h)
      rw [List.append_assoc] at hrest
      exact hrest
  exact Spells.scan (hall hwf (Page.spells_of_value rfl))

end Files

end DpLang
