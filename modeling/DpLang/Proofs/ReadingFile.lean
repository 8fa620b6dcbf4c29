import DpLang.Proofs.ReadingGrammar
import DpLang.Proofs.ParameterTypes
import DpLang.Proofs.PlanLayout

/-!
# What statements, definitions and files are read as

Every parser of a statement or a definition that succeeds gives a tree with a well-formed plan, and
so does the parser of files. All comments of a file end up in its tree.
-/

namespace DpLang.Parser

variable {b : Bool} {c d : Cursor} {l : Int} {kind : TokenKind}

section Imports

/-- A member of the names of an import. -/
def IsImportName : Node → Prop
  | .comment _ source => IsLexeme .comment source
  | .identifier _ name _ => IsQualifiedName name
  | _ => False

/-- An import with a path that is one, or none, and names that are names. -/
def IsClause : Node → Prop
  | .importNames _ path names _ => IsPathText path ∧ ∀ name ∈ names, IsImportName name
  | _ => False

lemma quotedRest?_getLast {mark : Char} {rest text : Text}
    (h : Token.quotedRest? mark rest = some text) : text.getLast? = some mark := by
  induction rest using Token.quotedRest?.induct mark generalizing text with
  | case1 => cases h
  | case2 => cases h
  | case3 escaped rest ih =>
    rw [quotedRest?_escape] at h
    obtain ⟨inner, hinner, rfl⟩ := Option.map_eq_some_iff.1 h
    simp [List.getLast?_cons, ih hinner]
  | case4 rest hc =>
    rw [quotedRest?_mark hc] at h
    obtain rfl := Option.some.inj h
    rfl
  | case5 c rest hc hm ih =>
    rw [quotedRest?_other hc hm] at h
    obtain ⟨inner, hinner, rfl⟩ := Option.map_eq_some_iff.1 h
    simp [List.getLast?_cons, ih hinner]

lemma quotedRest?_of_isLexeme {kind : TokenKind} {rest : Text} (h : IsLexeme kind ('"' :: rest)) :
    Token.quotedRest? '"' rest = some rest := by
  rw [IsLexeme, Token.lexeme?, if_neg (by decide), if_neg (by decide), if_neg (by simp),
    if_neg (by decide), if_neg (by decide)] at h
  obtain ⟨text, htext, he⟩ := Option.map_eq_some_iff.1 h
  obtain rfl := (List.cons.inj (Prod.mk.inj he).2).2
  exact htext

lemma isImportPath_of_isPathText {path : Text} (h : IsPathText path) : isImportPath path = true := by
  rcases h with rfl | ⟨hl, hq⟩
  · rfl
  · cases path with
    | nil => cases hq
    | cons q rest =>
      obtain rfl : q = '"' := Option.some.inj hq
      have hlast := quotedRest?_getLast (quotedRest?_of_isLexeme hl)
      cases rest with
      | nil => cases hlast
      | cons c rest => simp [isImportPath, hlast]

lemma isQualifiedName_short {name : QualifiedName} (h : IsQualifiedName name) :
    name.short.isEmpty = false := by
  obtain ⟨words, ⟨hne, hwords⟩, hname⟩ := h
  have hlast : name.getLast? = some (words.getLast hne) := by
    rcases hname with rfl | rfl
    · exact List.getLast?_eq_some_getLast hne
    · rw [List.getLast?_cons, List.getLast?_eq_some_getLast hne]
      rfl
  have hword := hwords _ (List.getLast_mem hne)
  rw [QualifiedName.short, hlast, Option.getD_some]
  exact List.isEmpty_eq_false_iff.2 (lexeme?_isFront hword).2

lemma isName_of_isImportName {n : Node} (h : IsImportName n) : n.isName = true := by
  cases n with
  | comment => rfl
  | identifier => rfl
  | _ => exact h.elim

lemma isClause_of_isClause {n : Node} (h : IsClause n) : n.isClause = true := by
  cases n with
  | importNames _ path names _ =>
    exact List.all_eq_true.2 fun name hname => isName_of_isImportName (h.2 name hname)
  | _ => exact h.elim

lemma importedNames_reads {nodes : List Node} (h : c.Stands b l)
    (hp : importedNames c = .ok (nodes, d)) :
    ∃ m, Passes (b || !nodes.isEmpty) c d l m (commentsIn nodes) ∧ ∀ n ∈ nodes, IsImportName n := by
  obtain ⟨x, c1, hx, hp⟩ := bind_ok_iff.1 hp
  have hpass1 := skipPlain_reads rfl h hx
  have hid {P : Node → Prop} (hP : ∀ n, n.isComment = false → IsImportName n → P n) :
      Gives P (member identifier) := by
    refine makes_identifier.gives fun n hc hn => ?_
    obtain ⟨start, name, stop, rfl, hname⟩ := hn
    exact hP _ hc hname
  cases x with
  | true =>
    rw [Bool.or_true] at hpass1
    obtain ⟨m, hpass2, -, hall⟩ := membersUntil_reads (P := IsImportName) (by
      simp only [List.forall_mem_cons]
      exact ⟨gives_comma, gives_comment fun _ _ h => h, hid fun n _ hn => hn, gives_newline, by simp⟩)
      hpass1.stands hp
    exact ⟨m, (hpass1.trans hpass2).weaken, hall⟩
  | false =>
    rw [Bool.or_false] at hpass1
    obtain ⟨m, hpass2, -, hall⟩ := nakedMembers_reads (P := IsImportName) (by
      simp only [List.forall_mem_cons]
      exact ⟨gives_comma, hid fun n hc hn => ⟨hn, hc⟩, by simp⟩) hpass1.stands hp
    exact ⟨m, hpass1.trans hpass2, hall⟩

lemma importedPath_reads {path : Text} (h : c.Stands b l) (hp : importedPath c = .ok (path, d)) :
    ∃ m, Passes (b || !path.isEmpty) c d l m [] ∧ IsPathText path := by
  obtain ⟨o, c1, ho, hp⟩ := bind_ok_iff.1 hp
  have hs := skim_reads h ho
  cases o with
  | none =>
    obtain ⟨rfl, rfl⟩ := pure_ok_iff.1 hp
    exact ⟨l, by simpa using hs.1, .inl rfl⟩
  | some t =>
    obtain ⟨hfound, hpass, -⟩ := hs
    have hcomment : t.commentText = [] := if_neg (by rw [hfound.isKind]; decide)
    rw [hcomment] at hpass
    dsimp only at hp
    split_ifs at hp with hq
    · exact absurd hp not_reject_bind_ok
    · obtain ⟨rfl, rfl⟩ := pure_ok_iff.1 hp
      exact ⟨_, hpass.weaken, .inr ⟨hfound.lexeme, not_not.1 hq⟩⟩

lemma comments_importNames (start : Position) (path : Text) (names : List Node) (stop : Position) :
    (Node.importNames start path names stop).comments = commentsIn names :=
  Node.comments_of_children rfl

lemma makes_importWithKeyword : Makes IsClause importWithKeyword := by
  intro b c l n d h hp
  replace hp := of_here_bind hp
  obtain ⟨x, c2, hx, hp⟩ := bind_ok_iff.1 hp
  have hpass1 := (Passes.settle h).trans (skipPlain_reads rfl h.settle hx)
  cases x with
  | false =>
    exact absurd hp not_reject_bind_ok
  | true =>
    rw [Bool.or_true] at hpass1
    obtain ⟨path, c3, hpath, hp⟩ := bind_ok_iff.1 hp
    obtain ⟨m2, hpass2, hp2⟩ := importedPath_reads hpass1.stands hpath
    obtain ⟨names, c4, hnames, hp⟩ := bind_ok_iff.1 hp
    obtain ⟨m3, hpass3, hp3⟩ := importedNames_reads hpass2.stands hnames
    have hpass := (hpass1.trans hpass2).trans hpass3
    obtain ⟨stop, hstop, rfl, rfl⟩ := lastStop_bind_ok hpass.stands hp
    refine ⟨fun hc => ?_, rfl, m3, by rw [comments_importNames]; exact hpass,
      Node.spans_of_line h.position hstop hpass.le, hp2, hp3⟩
    exact not_atLineEnd (peekKind?_of_skip hx) nofun (Cursor.AtLineEnd.settle_iff.2 hc)

lemma startsNone_of_atLineEnd {kinds : List TokenKind} (h : c.AtLineEnd) (hk : .newline ∉ kinds) :
    c.StartsNone kinds := fun kind hmem hkind => hk (h kind hkind ▸ hmem)

lemma endsNakedList_of_atLineEnd (h : c.AtLineEnd) : endsNakedList c.peekKind? = true := by
  cases hk : c.peekKind? with
  | none => rfl
  | some kind => rw [h kind hk]; decide

lemma not_atLineEnd_of_rejects {α : Type} {p : Parser α} {x : α} (hp : p c = .ok (x, d))
    (hr : c.AtLineEnd → Rejects p c) : ¬c.AtLineEnd := by
  intro hc
  obtain ⟨report, hr⟩ := hr hc
  rw [hr] at hp
  cases hp

lemma makes_importEntry : Makes IsClause importEntry := by
  intro b c l n d h hp
  have hline := not_atLineEnd_of_rejects hp fun hc =>
    rejects_importEntry (endsNakedList_of_atLineEnd hc) (startsNone_of_atLineEnd hc (by decide))
  replace hp := of_here_bind hp
  obtain ⟨x, c2, hx, hp⟩ := bind_ok_iff.1 hp
  have hpass1 := (Passes.settle h).trans (skipPlain_reads rfl h.settle hx)
  obtain ⟨path, c3, hpath, hp⟩ := bind_ok_iff.1 hp
  obtain ⟨m2, hpass2, hp2⟩ := importedPath_reads hpass1.stands hpath
  obtain ⟨names, c4, hnames, hp⟩ := bind_ok_iff.1 hp
  obtain ⟨m3, hpass3, hp3⟩ := importedNames_reads hpass2.stands hnames
  have hpass := (hpass1.trans hpass2).trans hpass3
  dsimp only at hp
  split_ifs at hp with hempty
  · exact absurd hp not_bind_reject_bind_ok
  · have htaken : (b || x || !path.isEmpty || !names.isEmpty) = true := by
      revert hempty
      cases path.isEmpty <;> cases names.isEmpty <;> simp
    rw [htaken] at hpass
    obtain ⟨stop, hstop, rfl, rfl⟩ := lastStop_bind_ok hpass.stands hp
    exact ⟨hline, rfl, m3, by rw [comments_importNames]; exact hpass,
      Node.spans_of_line h.position hstop hpass.le, hp2, hp3⟩

end Imports

section Lists

lemma nakedValues_reads : ReadsList IsValue nakedValues := by
  intro c l nodes d h hp
  refine nakedMembers_reads (b := true) ?_ h hp
  simp only [List.forall_mem_cons]
  exact ⟨gives_comma, makes_listValue.gives fun n hc hn => ⟨hn, hc⟩, by simp⟩

lemma delimitedValues_reads : ReadsList IsValue delimitedValues := by
  intro c l nodes d h hp
  obtain ⟨values, c1, hvalues, hp⟩ := bind_ok_iff.1 hp
  obtain ⟨m, hpass, hchain, hall⟩ := membersUntil_reads (P := IsValue) (by
    simp only [List.forall_mem_cons]
    exact ⟨gives_comma, gives_comment fun _ _ h => h, makes_listValue.gives fun n _ hn => hn,
      gives_newline, by simp⟩) h hvalues
  replace hp := of_peekKind?_bind hp
  dsimp only at hp
  split_ifs at hp with hends
  · exact absurd hp not_bind_reject_bind_ok
  · obtain ⟨rfl, rfl⟩ := pure_ok_iff.1 hp
    have hpass2 := hpass.trans (.settle hpass.stands)
    rw [List.append_nil] at hpass2
    exact ⟨m, hpass2, hchain, hall⟩

lemma values_reads : ReadsList IsValue values := by
  intro c l nodes d h hp
  obtain ⟨x, c1, hx, hp⟩ := bind_ok_iff.1 hp
  have hpass1 : Passes true c c1 l l [] := skipPlain_reads rfl h hx
  cases x with
  | true =>
    obtain ⟨m, hpass, hrest⟩ := delimitedValues_reads hpass1.stands hp
    exact ⟨m, hpass1.trans hpass, hrest⟩
  | false =>
    obtain ⟨m, hpass, hrest⟩ := nakedValues_reads hpass1.stands hp
    exact ⟨m, hpass1.trans hpass, hrest⟩

lemma variableNames_reads {names : List Text} (h : c.Stands b l)
    (hp : variableNames c = .ok (names, d)) :
    (∀ name ∈ names, IsLexeme .word name) ∧ Passes b c d l l [] := by
  have hname ⦃b : Bool⦄ ⦃c d : Cursor⦄ ⦃found : Option Text⦄ (h : c.Stands b l)
      (hp : firstOf [comma, member (return (← take .word "variable name expected").text)] c =
        .ok (found, d)) : (∀ name ∈ found.toList, IsLexeme .word name) ∧ Passes true c d l l [] := by
    obtain ⟨p, hmem, hp⟩ := firstOf_ok hp
    simp only [List.mem_cons, List.not_mem_nil, or_false] at hmem
    rcases hmem with rfl | rfl
    · obtain ⟨t, ht, rfl⟩ := bind_pure_ok hp
      exact ⟨by simp, (takePlain_reads rfl h ht).2⟩
    · obtain ⟨name, hname, rfl⟩ := bind_pure_ok hp
      obtain ⟨t, ht, rfl⟩ := bind_pure_ok hname
      obtain ⟨hf, hpass⟩ := takePlain_reads rfl h ht
      exact ⟨by simpa using hf.lexeme, hpass⟩
  obtain ⟨m, hread, hend⟩ := membersWithin_induct
    (R := fun c names m => ∀ ⦃b⦄, c.Stands b l →
      (∀ name ∈ names, IsLexeme .word name) ∧ Passes b c m l l [])
    (fun _ _ hx => by
      replace hx := of_peekKind?_bind hx
      exact (pure_ok_iff.1 hx).2)
    (fun c b h => ⟨by simp, h, Int.le_refl l, rfl⟩)
    (fun c found d others m hfound hrest b h => by
      obtain ⟨hfirst, hpass⟩ := hname h.settle hfound
      obtain ⟨hnames, hpass2⟩ := hrest hpass.stands
      refine ⟨fun name hmem => ?_, (((Passes.settle h).trans hpass).trans hpass2).weaken⟩
      exact (List.mem_append.1 hmem).elim (hfirst name) (hnames name)) hp
  obtain ⟨hnames, hpass⟩ := hread h
  replace hend := of_peekKind?_bind hend
  obtain ⟨-, rfl⟩ := pure_ok_iff.1 hend
  exact ⟨hnames, hpass.trans (.settle hpass.stands)⟩

end Lists

section Statements

structure IsTarget (n : Node) : Prop where
  isTarget : n.isTarget = true
  wf : n.targetPlan.WF

lemma isComment_valuePlans {nodes : List Node} (h : ∀ n ∈ nodes, n.isComment = false) (spread : Bool)
    (previous : Int) : ∀ value ∈ valuePlans spread previous nodes, value.mark.2 = false := by
  induction nodes generalizing previous with
  | nil => simp [valuePlans]
  | cons n nodes ih =>
    obtain ⟨hn, hnodes⟩ := List.forall_mem_cons.1 h
    cases n with
    | comment => cases hn
    | assignerDereference => exact List.forall_mem_cons.2 ⟨rfl, ih hnodes _⟩
    | expression => exact List.forall_mem_cons.2 ⟨rfl, ih hnodes _⟩
    | _ => exact ih hnodes _

lemma makes_assignerDereference : Makes IsTarget assignerDereference := by
  intro b c l n d h hp
  obtain ⟨o, c1, ho, hp⟩ := bind_ok_iff.1 hp
  have hr := assignerDereference?_reads h ho
  cases o with
  | none =>
    exact absurd hp not_bind_reject_ok
  | some node =>
    obtain ⟨hline, hpass, start, name, stop, rfl, hname, hstart, hstop⟩ := hr
    obtain ⟨rfl, rfl⟩ := pure_ok_iff.1 hp
    exact ⟨hline, rfl, l, hpass, Node.spans_of_line hstart hstop (Int.le_refl l), rfl, hname⟩

lemma makes_targetCall : Makes IsTarget (targetCallOf atomic) := by
  refine (makes_callWith (P := fun n => n.isComment = false) ?_).mono fun n hn => ?_
  · simp only [List.forall_mem_cons]
    exact ⟨gives_comma, makes_listValue.gives fun n hc hn => ⟨hn, hc⟩, gives_newline, by simp⟩
  · obtain ⟨he, name, args, stop, rfl, hargs⟩ := hn
    exact ⟨he.isExpr, he.wf, isComment_valuePlans hargs _ _⟩

lemma makes_targetIndex : Makes IsTarget (indexOf atomic) := by
  refine (makes_indexOf makes_atomic).mono fun n hn => ?_
  obtain ⟨he, name, subscript, stop, rfl⟩ := hn
  exact ⟨he.isExpr, he.wf⟩

lemma makes_targetSelector : Makes IsTarget selector := by
  refine makes_selector.mono fun n hn => ?_
  obtain ⟨he, s, rfl⟩ := hn
  exact ⟨rfl, he.wf⟩

/-- A statement with a well-formed plan, in whose blocks the imports are imports. -/
structure IsStatement (n : Node) : Prop where
  isStatement : n.isStatement = true
  wf : n.statementPlan.WF
  imports : ∀ m ∈ n.nestedImports, IsClause m

lemma comments_assign (start : Position) (targets values : List Node) (stop : Position) :
    (Node.assign start targets values stop).comments = commentsIn targets ++ commentsIn values :=
  (Node.comments_of_children rfl).trans (commentsIn_append targets values)

lemma makes_assign : Makes IsStatement assign := by
  intro b c l n d h hp
  have hline := not_atLineEnd_of_rejects hp fun hc => rejects_assign (endsNakedList_of_atLineEnd hc)
  obtain ⟨targets, c1, htargets, hp⟩ := bind_ok_iff.1 hp
  obtain ⟨m1, hpass1, hchain, hall⟩ := nakedMembers_reads (P := IsTarget) (by
    simp only [List.forall_mem_cons]
    exact ⟨makes_assignerDereference.gives fun n hc hn => ⟨hn, hc⟩,
      makes_targetCall.gives fun n hc hn => ⟨hn, hc⟩, gives_comma,
      makes_targetIndex.gives fun n hc hn => ⟨hn, hc⟩,
      makes_targetSelector.gives fun n hc hn => ⟨hn, hc⟩, by simp⟩) h htargets
  cases targets with
  | nil =>
    exact absurd hp not_bind_reject_ok
  | cons first targets =>
    obtain ⟨t, c2, ht, hp⟩ := bind_ok_iff.1 hp
    obtain ⟨-, hpass2⟩ := takePlain_reads rfl hpass1.stands ht
    obtain ⟨values, c3, hvalues, hp⟩ := bind_ok_iff.1 hp
    obtain ⟨m3, hpass3, hchain3, hall3⟩ := values_reads hpass2.stands hvalues
    dsimp only at hp
    split_ifs at hp with hempty
    · exact absurd hp not_bind_reject_bind_ok
    · obtain ⟨stop, hstop, rfl, rfl⟩ := lastStop_bind_ok hpass3.stands hp
      have hpass := (hpass1.trans hpass2).trans hpass3
      rw [List.append_nil] at hpass
      have hstart := (hchain.spans first List.mem_cons_self).1
      have h1 := hstart.start
      have h2 := hstart.le
      have h3 := hstart.stop
      have h4 := hpass3.le
      have hle : first.start.line ≤ stop.line := by omega
      refine ⟨hline, rfl, m3, by rw [comments_assign]; exact hpass, ⟨h1, hle, Int.le_of_eq hstop⟩, ?_, ?_,
        nofun⟩
      · rw [Node.isStatement, areValues_of_isValue hall3, Bool.and_true, List.all_eq_true]
        exact fun target htarget => (hall target htarget).isTarget
      · refine ⟨⟨by simp, ?_⟩, ?_, listShape_valuePlans hall3 (by omega) hchain3,
          valuesWF_valuePlans hall3 _ _⟩
        · intro target htarget
          obtain ⟨node, hnode, rfl⟩ := List.mem_map.1 htarget
          exact (hall node hnode).wf
        · rw [ne_eq, valuePlans_eq_nil hall3]
          simpa using hempty

lemma makes_jump {keyword : Keyword} {kind : Jump} {message : Text} :
    Makes IsStatement (jump keyword kind message) := by
  intro b c l n d h hp
  obtain ⟨t, c1, ht, hp⟩ := bind_ok_iff.1 hp
  obtain ⟨hfound, hpass⟩ := takePlain_reads rfl h ht
  obtain ⟨stop, hstop, rfl, rfl⟩ := lastStop_bind_ok hpass.stands hp
  exact ⟨not_atLineEnd (peekKind?_of_take ht) nofun, rfl, l, hpass,
    Node.spans_of_line hfound.line hstop (Int.le_refl l), rfl, trivial, nofun⟩

lemma makes_expressionStatement : Makes IsStatement expressionStatement := by
  intro b c l n d h hp
  obtain ⟨value, c1, hvalue, hp⟩ := bind_ok_iff.1 hp
  obtain ⟨hline, m, hpass, hspan, he⟩ := makes_expression false h hvalue
  replace hp := of_peekKind?_bind hp
  dsimp only at hp
  split_ifs at hp with hends
  · exact absurd hp not_bind_reject_bind_ok
  · obtain ⟨rfl, rfl⟩ := pure_ok_iff.1 hp
    have hpass2 := hpass.trans (.settle hpass.stands)
    rw [List.append_nil] at hpass2
    exact ⟨hline rfl, rfl, m, by rw [comments_expression]; exact hpass2,
      ⟨hspan.start, hspan.le, hspan.stop⟩, he.isExpr, he.wf, nofun⟩

lemma comments_returnValues (start : Position) (values : List Node) (stop : Position) :
    (Node.returnValues start values stop).comments = commentsIn values :=
  Node.comments_of_children rfl

lemma makes_returnValues : Makes IsStatement returnValues := by
  intro b c l n d h hp
  obtain ⟨t, c1, ht, hp⟩ := bind_ok_iff.1 hp
  obtain ⟨hfound, hpass1⟩ := takePlain_reads rfl h ht
  obtain ⟨values, c2, hvalues, hp⟩ := bind_ok_iff.1 hp
  have hread : ∃ m, Passes true c1 c2 l m (commentsIn values) ∧ Chained l false m values ∧
      ∀ n ∈ values, IsValue n := by
    obtain ⟨p, hmem, hvalues⟩ := firstOf_ok hvalues
    simp only [List.mem_cons, List.not_mem_nil, or_false] at hmem
    rcases hmem with rfl | rfl
    · exact nakedValues_reads hpass1.stands hvalues
    · obtain ⟨t', c', ht', hvalues⟩ := bind_ok_iff.1 hvalues
      obtain ⟨-, hpass'⟩ := takePlain_reads rfl hpass1.stands ht'
      obtain ⟨m, hpass, hrest⟩ := delimitedValues_reads hpass'.stands hvalues
      exact ⟨m, hpass'.trans hpass, hrest⟩
  obtain ⟨m, hpass2, hchain, hall⟩ := hread
  obtain ⟨stop, hstop, rfl, rfl⟩ := lastStop_bind_ok hpass2.stands hp
  have hpass := hpass1.trans hpass2
  exact ⟨not_atLineEnd (peekKind?_of_take ht) nofun, rfl, m, by rw [comments_returnValues]; exact hpass,
    Node.spans_of_line hfound.line hstop hpass2.le, areValues_of_isValue hall,
    ⟨listShape_valuePlans hall (Int.le_of_eq hfound.line) hchain, valuesWF_valuePlans hall _ _⟩, nofun⟩

lemma makes_variableDecl : Makes IsStatement variableDecl := by
  intro b c l n d h hp
  have hline := not_atLineEnd_of_rejects hp fun hc =>
    rejects_variableDecl (endsNakedList_of_atLineEnd hc) (startsNone_of_atLineEnd hc (by decide))
  replace hp := of_here_bind hp
  obtain ⟨names, c2, hnames, hp⟩ := bind_ok_iff.1 hp
  obtain ⟨hwords, hpass2⟩ := variableNames_reads h.settle hnames
  obtain ⟨t, c3, ht, hp⟩ := bind_ok_iff.1 hp
  obtain ⟨-, hpass3⟩ := takePlain_reads rfl hpass2.stands ht
  obtain ⟨x, c4, hx, hp⟩ := bind_ok_iff.1 hp
  have hpass4 : Passes true c3 c4 l l [] := skipPlain_reads rfl hpass3.stands hx
  have hpass := (((Passes.settle h).trans hpass2).trans hpass3).trans hpass4
  cases x with
  | true =>
    obtain ⟨stop, hstop, rfl, rfl⟩ := lastStop_bind_ok hpass.stands hp
    exact ⟨hline, rfl, l, hpass, Node.spans_of_line h.position hstop (Int.le_refl l), rfl,
      ⟨hwords, by simp⟩, nofun⟩
  | false =>
    obtain ⟨type, c5, htype, hp⟩ := bind_ok_iff.1 hp
    obtain ⟨-, hwf, -, -, hpass5⟩ := typeSpec_reads hpass4.stands htype
    obtain ⟨stop, hstop, rfl, rfl⟩ := lastStop_bind_ok hpass5.stands hp
    exact ⟨hline, rfl, l, hpass.trans hpass5, Node.spans_of_line h.position hstop (Int.le_refl l), rfl,
      ⟨hwords, by simpa using hwf⟩, nofun⟩

lemma comments_variableDef (start : Position) (names : List Text) (values : List Node)
    (stop : Position) : (Node.variableDef start names values stop).comments = commentsIn values :=
  Node.comments_of_children rfl

lemma makes_variableDef : Makes IsStatement variableDef := by
  intro b c l n d h hp
  have hline := not_atLineEnd_of_rejects hp fun hc =>
    rejects_variableDef (endsNakedList_of_atLineEnd hc) (startsNone_of_atLineEnd hc (by decide))
  replace hp := of_here_bind hp
  obtain ⟨names, c2, hnames, hp⟩ := bind_ok_iff.1 hp
  obtain ⟨hwords, hpass2⟩ := variableNames_reads h.settle hnames
  obtain ⟨t, c3, ht, hp⟩ := bind_ok_iff.1 hp
  obtain ⟨-, hpass3⟩ := takePlain_reads rfl hpass2.stands ht
  obtain ⟨values, c4, hvalues, hp⟩ := bind_ok_iff.1 hp
  obtain ⟨m, hpass4, hchain, hall⟩ := values_reads hpass3.stands hvalues
  obtain ⟨stop, hstop, rfl, rfl⟩ := lastStop_bind_ok hpass4.stands hp
  have hpass := (((Passes.settle h).trans hpass2).trans hpass3).trans hpass4
  exact ⟨hline, rfl, m, by rw [comments_variableDef]; exact hpass,
    Node.spans_of_line h.position hstop hpass4.le, areValues_of_isValue hall,
    ⟨hwords, listShape_valuePlans hall (Int.le_of_eq h.position) hchain, valuesWF_valuePlans hall _ _⟩,
    nofun⟩

end Statements

section Blocks

/-- A member of a block. -/
inductive IsEntry (n : Node) : Prop where
  | comment (start : Position) (source : Text) (node : n = .comment start source)
      (lexeme : IsLexeme .comment source)
  | clause (clause : IsClause n)
  | statement (isImport : n.isImport = false) (isComment : n.isComment = false)
      (statement : IsStatement n)

variable {nodes : List Node}

lemma isImport_of_isClause {n : Node} (h : IsClause n) : n.isImport = true := by
  cases n with
  | importNames => rfl
  | _ => exact h.elim

lemma IsStatement.entry {n : Node} (hc : n.isComment = false) (h : IsStatement n) : IsEntry n := by
  refine .statement ?_ hc h
  cases n with
  | importNames => cases h.isStatement
  | _ => rfl

lemma areStatements_of_isEntry (h : ∀ n ∈ nodes, IsEntry n) : areStatements nodes = true := by
  induction nodes with
  | nil => rfl
  | cons n nodes ih =>
    obtain ⟨hn, hnodes⟩ := List.forall_mem_cons.1 h
    cases hn with
    | comment start source node => subst node; exact ih hnodes
    | clause clause =>
      have hclause := isClause_of_isClause clause
      cases n with
      | importNames => exact Bool.and_eq_true_iff.2 ⟨hclause, ih hnodes⟩
      | _ => exact clause.elim
    | statement hi hc hs => rw [areStatements_cons hi hc, hs.isStatement, ih hnodes]; rfl

lemma blockWF_entryPlans {pending : Bool} {m : Int} (h : ∀ n ∈ nodes, IsEntry n)
    (hc : Chained l pending m nodes) :
    GapsOk pending ((entryPlans l nodes).map EntryPlan.mark) ∧ EntriesWF (entryPlans l nodes) := by
  induction nodes generalizing l pending with
  | nil => exact ⟨trivial, trivial⟩
  | cons n nodes ih =>
    obtain ⟨hn, hnodes⟩ := List.forall_mem_cons.1 h
    obtain ⟨hle, hp, hle', hrest⟩ := hc
    have hgap : Gap.before l n = .sameLine → n.isComment = true ∧ pending = false := by
      intro hg
      obtain ⟨hline, hcomment⟩ := Gap.before_eq_sameLine.1 hg
      refine ⟨hcomment, Bool.eq_false_iff.2 fun hpending => ?_⟩
      have := hp hpending
      omega
    cases hn with
    | comment start source node lexeme =>
      subst node
      obtain ⟨hgaps, hwf⟩ := ih hnodes hrest
      exact ⟨⟨hgap, hgaps⟩, isCommentText_strip lexeme, hwf⟩
    | clause clause =>
      cases n with
      | importNames =>
        exact ih hnodes (hrest.mono (Int.le_trans hle hle') fun hpending => Int.lt_of_lt_of_le
          (hp hpending) hle')
      | _ => exact clause.elim
    | statement hi hcomment hs =>
      obtain ⟨hgaps, hwf⟩ := ih hnodes hrest
      rw [entryPlans_cons hi hcomment]
      rw [hcomment] at hgaps
      exact ⟨⟨fun hg => absurd (hgap hg).1 (by simp [hcomment]), hgaps⟩, hs.wf, hwf⟩

lemma nestedImports_of_isEntry (h : ∀ n ∈ nodes, IsEntry n) :
    ∀ m ∈ Node.nestedImportsOf nodes, IsClause m := by
  induction nodes with
  | nil => exact nofun
  | cons n nodes ih =>
    obtain ⟨hn, hnodes⟩ := List.forall_mem_cons.1 h
    rw [Node.nestedImportsOf]
    intro m hm
    rcases List.mem_append.1 hm with hm | hm
    · cases hn with
      | comment start source node => subst node; cases hm
      | clause clause =>
        cases n with
        | importNames start path names stop =>
          rw [Node.nestedImports] at hm
          split at hm
          · cases hm
          · rw [List.mem_singleton.1 hm]
            exact clause
        | _ => exact clause.elim
      | statement hi hc hs => exact hs.imports m hm
    · exact ih hnodes m hm

/-- What the parser of the statements of a block reads behind the opening brace. -/
def ReadsBlock (p : Parser (List Node)) : Prop :=
  ∀ ⦃c l nodes d⦄, c.Stands true l → p c = .ok (nodes, d) →
    ∃ m, Passes true c d l m (commentsIn nodes) ∧ Chained l false m nodes ∧ ∀ n ∈ nodes, IsEntry n

variable {statements : Parser (List Node)}

lemma comments_block (start : Position) (body : List Node) (stop : Position) :
    (Node.block start body stop).comments = commentsIn body :=
  Node.comments_of_children rfl

lemma makes_blockOf (hs : ReadsBlock statements) : Makes IsStatement (blockOf statements) := by
  intro b c l n d h hp
  obtain ⟨t, c1, ht, hp⟩ := bind_ok_iff.1 hp
  obtain ⟨hfound, hpass1⟩ := takePlain_reads rfl h ht
  obtain ⟨body, c2, hbody, hp⟩ := bind_ok_iff.1 hp
  obtain ⟨m, hpass2, hchain, hall⟩ := hs hpass1.stands hbody
  obtain ⟨stop, hstop, rfl, rfl⟩ := lastStop_bind_ok hpass2.stands hp
  have hpass := hpass1.trans hpass2
  rw [← hfound.line] at hchain
  exact ⟨not_atLineEnd (peekKind?_of_take ht) nofun, rfl, m, by rw [comments_block]; exact hpass,
    Node.spans_of_line hfound.line hstop hpass2.le, areStatements_of_isEntry hall,
    blockWF_entryPlans hall hchain, nestedImports_of_isEntry hall⟩

lemma comments_forLoop (start : Position) (test : Option Node) (bodyStart : Position)
    (body : List Node) (stop : Position) :
    (Node.forLoop start test bodyStart body stop).comments =
      test.toList.flatMap Node.comments ++ commentsIn body := by
  rw [Node.comments_of_children rfl, Node.children, commentsIn_append]
  cases test with
  | none => rfl
  | some test => rw [Option.toList, commentsIn_singleton, List.flatMap_singleton]

lemma makes_forLoopOf (hs : ReadsBlock statements) : Makes IsStatement (forLoopOf statements) := by
  intro b c l n d h hp
  obtain ⟨t, c1, ht, hp⟩ := bind_ok_iff.1 hp
  obtain ⟨hfound, hpass1⟩ := takePlain_reads rfl h ht
  have hline := not_atLineEnd (peekKind?_of_take ht) nofun
  obtain ⟨o, c2, ho, hp⟩ := bind_ok_iff.1 hp
  obtain ⟨hopen, hpass2⟩ := skimPlain_reads rfl hpass1.stands ho
  have hpass2 : Passes true c1 c2 l l [] := hpass2
  cases o with
  | some opening =>
    obtain ⟨body, c3, hbody, hp⟩ := bind_ok_iff.1 hp
    obtain ⟨m, hpass3, hchain, hall⟩ := hs hpass2.stands hbody
    obtain ⟨stop, hstop, rfl, rfl⟩ := lastStop_bind_ok hpass3.stands hp
    have hpass := (hpass1.trans hpass2).trans hpass3
    rw [← (hopen opening rfl).line] at hchain
    exact ⟨hline, rfl, m, by rw [comments_forLoop]; exact hpass,
      Node.spans_of_line hfound.line hstop hpass3.le, areStatements_of_isEntry hall,
      blockWF_entryPlans hall hchain, nestedImports_of_isEntry hall⟩
  | none =>
    obtain ⟨test, c3, htest, hp⟩ := bind_ok_iff.1 hp
    obtain ⟨-, m3, hpass3, -, he⟩ := makes_expression false hpass2.stands htest
    obtain ⟨opening, c4, hopening, hp⟩ := bind_ok_iff.1 hp
    obtain ⟨hfound4, hpass4⟩ := takePlain_reads rfl hpass3.stands hopening
    obtain ⟨body, c5, hbody, hp⟩ := bind_ok_iff.1 hp
    obtain ⟨m, hpass5, hchain, hall⟩ := hs hpass4.stands hbody
    obtain ⟨stop, hstop, rfl, rfl⟩ := lastStop_bind_ok hpass5.stands hp
    have hpass := (((hpass1.trans hpass2).trans hpass3).trans hpass4).trans hpass5
    rw [← hfound4.line] at hchain
    refine ⟨hline, rfl, m, by rw [comments_forLoop]; simpa using hpass,
      Node.spans_of_line hfound.line hstop hpass.le, ?_, ⟨he.wf, blockWF_entryPlans hall hchain⟩,
      nestedImports_of_isEntry hall⟩
    rw [Node.isStatement, he.isExpr, areStatements_of_isEntry hall]
    rfl

lemma comments_ifElse (start : Position) (test : Node) (thenStart : Position)
    (thenBody : List Node) (thenStop : Position) (elseBody : List Node) (stop : Position) :
    (Node.ifElse start test thenStart thenBody thenStop elseBody stop).comments =
      test.comments ++ commentsIn thenBody ++ commentsIn elseBody := by
  rw [Node.comments_of_children rfl, Node.children, commentsIn_append, commentsIn_cons]

lemma makes_ifElseOf (hs : ReadsBlock statements) : Makes IsStatement (ifElseOf statements) := by
  intro b c l n d h hp
  obtain ⟨t, c1, ht, hp⟩ := bind_ok_iff.1 hp
  obtain ⟨hfound, hpass1⟩ := takePlain_reads rfl h ht
  have hline := not_atLineEnd (peekKind?_of_take ht) (by decide)
  obtain ⟨test, c2, htest, hp⟩ := bind_ok_iff.1 hp
  obtain ⟨-, m2, hpass2, -, he⟩ := makes_expression false hpass1.stands htest
  obtain ⟨opening, c3, hopening, hp⟩ := bind_ok_iff.1 hp
  obtain ⟨hfound3, hpass3⟩ := takePlain_reads rfl hpass2.stands hopening
  obtain ⟨thenBody, c4, hbody, hp⟩ := bind_ok_iff.1 hp
  obtain ⟨m4, hpass4, hchain4, hall4⟩ := hs hpass3.stands hbody
  rw [← hfound3.line] at hchain4
  replace hp := of_lastStop_bind hp
  have hlast := hpass4.stands.last rfl
  obtain ⟨x, c6, hx, hp⟩ := bind_ok_iff.1 hp
  have hpass6 : Passes true c4 c6 m4 m4 [] := skipPlain_reads rfl hpass4.stands hx
  have hpass := (((hpass1.trans hpass2).trans hpass3).trans hpass4).trans hpass6
  cases x with
  | true =>
    obtain ⟨t', c7, ht', hp⟩ := bind_ok_iff.1 hp
    obtain ⟨-, hpass7⟩ := takePlain_reads rfl hpass6.stands ht'
    obtain ⟨elseBody, c8, helse, hp⟩ := bind_ok_iff.1 hp
    obtain ⟨m8, hpass8, hchain8, hall8⟩ := hs hpass7.stands helse
    obtain ⟨stop, hstop, rfl, rfl⟩ := lastStop_bind_ok hpass8.stands hp
    have hpass := (hpass.trans hpass7).trans hpass8
    rw [← hlast] at hchain8
    refine ⟨hline, rfl, m8, by rw [comments_ifElse]; simpa using hpass,
      Node.spans_of_line hfound.line hstop hpass.le, ?_, ⟨he.wf, blockWF_entryPlans hall4 hchain4,
      blockWF_entryPlans hall8 hchain8⟩, fun m hm => ?_⟩
    · rw [Node.isStatement, he.isExpr, areStatements_of_isEntry hall4, areStatements_of_isEntry hall8]
      rfl
    · exact (List.mem_append.1 hm).elim (nestedImports_of_isEntry hall4 m)
        (nestedImports_of_isEntry hall8 m)
  | false =>
    obtain ⟨stop, hstop, rfl, rfl⟩ := lastStop_bind_ok hpass6.stands hp
    refine ⟨hline, rfl, m4, by rw [comments_ifElse]; simpa [commentsIn, Node.walkAll] using hpass,
      Node.spans_of_line hfound.line hstop hpass.le, ?_, ⟨he.wf, blockWF_entryPlans hall4 hchain4,
      trivial, trivial⟩, fun m hm => ?_⟩
    · rw [Node.isStatement, he.isExpr, areStatements_of_isEntry hall4]
      rfl
    · exact (List.mem_append.1 hm).elim (nestedImports_of_isEntry hall4 m)
        fun hm => absurd hm List.not_mem_nil

lemma readsBlock_statementsOf (hs : ReadsBlock statements) : ReadsBlock (statementsOf statements) := by
  intro c l nodes d h hp
  refine membersUntil_reads ?_ h hp
  simp only [List.forall_mem_cons]
  have hentry {p : Parser Node} (hp : Makes IsStatement p) : Gives IsEntry (member p) :=
    hp.gives fun n hc hn => hn.entry hc
  exact ⟨hentry makes_assign, hentry (makes_blockOf hs), hentry makes_jump,
    gives_comment fun _ _ h => .comment _ _ rfl h, hentry makes_jump, hentry makes_expressionStatement,
    hentry (makes_forLoopOf hs), hentry (makes_ifElseOf hs),
    makes_importWithKeyword.gives fun n _ hn => .clause hn, gives_newline, hentry makes_returnValues,
    gives_semicolon, hentry makes_variableDecl, hentry makes_variableDef, by simp⟩

lemma readsBlock_statementsWithin (fuel : Nat) : ReadsBlock (statementsWithin fuel) := by
  induction fuel with
  | zero => exact fun _ _ _ _ _ hp => by cases hp
  | succ fuel ih => exact readsBlock_statementsOf ih

lemma readsBlock_statements : ReadsBlock Parser.statements :=
  fun _ _ _ _ h hp => readsBlock_statementsWithin _ h hp

end Blocks

section Definitions

lemma definedName_reads {what : Text} {r : Token × Bool × Text} (h : c.Stands b l)
    (hp : definedName what c = .ok (r, d)) :
    ¬c.AtLineEnd ∧ r.1.start.line = l ∧ IsDefinedName r.2.1 r.2.2 ∧ Passes true c d l l [] := by
  obtain ⟨t, c1, ht, hp⟩ := bind_ok_iff.1 hp
  obtain ⟨hfound, hpass⟩ := takePlain_reads rfl h ht
  refine ⟨not_atLineEnd (peekKind?_of_take ht) nofun, ?_⟩
  split_ifs at hp with hpub
  · obtain ⟨t', c2, ht', hp⟩ := bind_ok_iff.1 hp
    obtain ⟨hfound', hpass'⟩ := takePlain_reads rfl hpass.stands ht'
    obtain ⟨rfl, rfl⟩ := pure_ok_iff.1 hp
    exact ⟨hfound.line, ⟨hfound'.lexeme, by simp⟩, hpass.trans hpass'⟩
  · obtain ⟨rfl, rfl⟩ := pure_ok_iff.1 hp
    exact ⟨hfound.line, ⟨hfound.lexeme, fun _ => hpub⟩, hpass⟩

/-- A member of a file. -/
def IsDefinition : Node → Prop
  | .constantDef _ isPublic name value _ => IsDefinedName isPublic name ∧ IsExpression value
  | .functionDef head params results body =>
    (functionPlan head params results body).WF ∧
      (Node.functionDef head params results body).isFileMember = true ∧
      (∀ m ∈ Node.nestedImportsOf body, IsClause m) ∧
      (head.receiverType = none → head.receiverName = [])
  | .typeDef start isPublic name fields _ =>
    IsDefinedName isPublic name ∧ fields.all Node.isField = true ∧
      GapsOk false ((memberPlans Node.fieldPlan true start.line (withoutImports fields)).map
        Member.mark) ∧
      (∀ member ∈ memberPlans Node.fieldPlan true start.line (withoutImports fields),
        member.Satisfies FieldPlan.WF) ∧ ∀ n ∈ fields, n.isImport = true → IsClause n
  | .importList _ imports _ =>
    ∀ n ∈ imports, (∃ start source, n = .comment start source ∧ IsLexeme .comment source) ∨
      IsClause n
  | _ => False

lemma comments_constantDef (start : Position) (isPublic : Bool) (name : Text) (value : Node)
    (stop : Position) : (Node.constantDef start isPublic name value stop).comments = value.comments :=
  (Node.comments_of_children rfl).trans (commentsIn_singleton value)

lemma makes_constantDef : Makes IsDefinition constantDef := by
  intro b c l n d h hp
  obtain ⟨r, c1, hr, hp⟩ := bind_ok_iff.1 hp
  obtain ⟨hline, hstart, hname, hpass1⟩ := definedName_reads h hr
  obtain ⟨t, c2, ht, hp⟩ := bind_ok_iff.1 hp
  obtain ⟨-, hpass2⟩ := takePlain_reads rfl hpass1.stands ht
  obtain ⟨value, c3, hvalue, hp⟩ := bind_ok_iff.1 hp
  obtain ⟨-, m, hpass3, -, he⟩ := makes_expression false hpass2.stands hvalue
  obtain ⟨stop, hstop, rfl, rfl⟩ := lastStop_bind_ok hpass3.stands hp
  have hpass := (hpass1.trans hpass2).trans hpass3
  exact ⟨hline, rfl, m, by rw [comments_constantDef]; exact hpass,
    Node.spans_of_line hstart hstop hpass.le, hname, he⟩

section Members

variable {α : Type} {item : Node → α} {Q : α → Prop} {nodes : List Node}

lemma gapsOk_memberPlans {pending : Bool} {m : Int} (spread : Bool) (hc : Chained l pending m nodes) :
    GapsOk pending ((memberPlans item spread l nodes).map Member.mark) := by
  induction nodes generalizing l pending with
  | nil => trivial
  | cons n nodes ih =>
    obtain ⟨-, hp, -, hrest⟩ := hc
    have hgap : Gap.within spread l n = .sameLine → n.isComment = true ∧ pending = false := by
      intro hg
      cases spread with
      | false => cases hg
      | true =>
        obtain ⟨hline, hcomment⟩ := Gap.before_eq_sameLine.1 hg
        refine ⟨hcomment, Bool.eq_false_iff.2 fun hpending => ?_⟩
        have := hp hpending
        omega
    cases hcomment : n.isComment with
    | true =>
      cases n with
      | comment => exact ⟨hgap, ih hrest⟩
      | _ => cases hcomment
    | false =>
      rw [memberPlans_cons _ _ _ hcomment]
      rw [hcomment] at hrest
      exact ⟨fun hg => absurd (hgap hg).1 (by simp [hcomment]), ih hrest⟩

lemma satisfies_memberPlans (spread : Bool) (previous : Int)
    (h : ∀ n ∈ nodes, (∃ start source, n = .comment start source ∧ IsLexeme .comment source) ∨
      n.isComment = false ∧ Q (item n)) :
    ∀ member ∈ memberPlans item spread previous nodes, member.Satisfies Q := by
  induction nodes generalizing previous with
  | nil => simp [memberPlans]
  | cons n nodes ih =>
    obtain ⟨hn, hnodes⟩ := List.forall_mem_cons.1 h
    rcases hn with ⟨start, source, rfl, hlexeme⟩ | ⟨hcomment, hQ⟩
    · exact List.forall_mem_cons.2 ⟨isCommentText_strip hlexeme, ih _ hnodes⟩
    · rw [memberPlans_cons _ _ _ hcomment]
      exact List.forall_mem_cons.2 ⟨hQ, ih _ hnodes⟩

lemma mark_memberPlans (spread : Bool) (previous : Int) (h : nodes.any Node.isComment = false) :
    ∀ member ∈ memberPlans item spread previous nodes, member.mark.2 = false := by
  induction nodes generalizing previous with
  | nil => simp [memberPlans]
  | cons n nodes ih =>
    rw [List.any_cons, Bool.or_eq_false_iff] at h
    rw [memberPlans_cons _ _ _ h.1]
    exact List.forall_mem_cons.2 ⟨rfl, ih _ h.2⟩

/-- The plan of a list that is spread only if it has members, and always if comments are among
them. -/
lemma membersWF_memberPlans {spread : Bool} {m k : Int}
    (h : ∀ n ∈ nodes, (∃ start source, n = .comment start source ∧ IsLexeme .comment source) ∨
      n.isComment = false ∧ Q (item n))
    (hkl : k ≤ l) (hc : Chained l false m nodes) (hspread : spread = true → nodes ≠ [])
    (hflat : spread = false → nodes.any Node.isComment = false) :
    MembersWF Q spread (memberPlans item spread k nodes) where
  gaps := gapsOk_memberPlans spread (hc.mono hkl (by simp))
  each := satisfies_memberPlans spread k h
  flat hs := mark_memberPlans spread k (hflat hs)
  nonempty hs := by
    have hne := hspread hs
    cases nodes with
    | nil => exact absurd rfl hne
    | cons n nodes => cases n <;> nofun

end Members

def IsCommentNode (n : Node) : Prop := ∃ start source, n = .comment start source ∧ IsLexeme .comment source

def IsOpenParameter (n : Node) : Prop :=
  ∃ start name type stop, n = .parameter start name type stop ∧ IsLexeme .word name ∧
    ∀ spec ∈ type, spec.type.WF

def IsTypedParameter (n : Node) : Prop :=
  ∃ start name spec stop, n = .parameter start name (some spec) stop ∧ IsLexeme .word name ∧
    spec.type.WF

lemma makes_parameter : Makes IsOpenParameter parameter := by
  intro b c l n d h hp
  obtain ⟨t, c1, ht, hp⟩ := bind_ok_iff.1 hp
  obtain ⟨hfound, hpass1⟩ := takePlain_reads rfl h ht
  have hline := not_atLineEnd (peekKind?_of_take ht) nofun
  obtain ⟨x, c2, hx, hp⟩ := bind_ok_iff.1 hp
  have hpass2 : Passes true c1 c2 l l [] := skipPlain_reads rfl hpass1.stands hx
  cases x with
  | true =>
    obtain ⟨stop, hstop, rfl, rfl⟩ := lastStop_bind_ok hpass2.stands hp
    exact ⟨hline, rfl, l, hpass1.trans hpass2,
      Node.spans_of_line hfound.line hstop (Int.le_refl l), _, _, _, _, rfl, hfound.lexeme, by simp⟩
  | false =>
    obtain ⟨spec, c3, hspec, hp⟩ := bind_ok_iff.1 hp
    obtain ⟨-, hwf, -, -, hpass3⟩ := typeSpec_reads hpass2.stands hspec
    obtain ⟨y, c4, hy, hp⟩ := bind_ok_iff.1 hp
    have hpass4 : Passes true c3 c4 l l [] := skipPlain_reads rfl hpass3.stands hy
    obtain ⟨stop, hstop, rfl, rfl⟩ := lastStop_bind_ok hpass4.stands hp
    exact ⟨hline, rfl, l, ((hpass1.trans hpass2).trans hpass3).trans hpass4,
      Node.spans_of_line hfound.line hstop (Int.le_refl l), _, _, _, _, rfl, hfound.lexeme,
      by simpa using hwf⟩

lemma comments_parameter (start : Position) (name : Text) (type : Option TypeSpec)
    (stop : Position) : (Node.parameter start name type stop).comments = [] := by
  cases type with
  | none => exact Node.comments_of_children rfl
  | some type => exact Node.comments_of_children rfl

lemma filledTypes_reads {nodes filled : List Node} {next : Option TypeSpec}
    (h : ∀ n ∈ nodes, IsCommentNode n ∨ IsOpenParameter n)
    (hf : filledTypes nodes = .ok (filled, next)) :
    (∀ n ∈ filled, IsCommentNode n ∨ IsTypedParameter n) ∧ (∀ spec ∈ next, spec.type.WF) ∧
      commentsIn filled = commentsIn nodes ∧
      ∀ {l m : Int} {pending : Bool}, Chained l pending m nodes → Chained l pending m filled := by
  induction nodes generalizing filled next with
  | nil =>
    obtain ⟨rfl, rfl⟩ := Prod.mk.inj (Except.ok.inj hf)
    exact ⟨by simp, by simp, rfl, fun hc => hc⟩
  | cons n nodes ih =>
    obtain ⟨hn, hnodes⟩ := List.forall_mem_cons.1 h
    obtain ⟨others, type, hrest, hstep⟩ := filledTypes_cons_ok hf
    obtain ⟨hothers, htype, hcomments, hchain⟩ := ih hnodes hrest
    rcases hstep with ⟨start, name, own, stop, spec, rfl, hspec, rfl, rfl⟩ | ⟨htakes, rfl, rfl⟩
    · obtain ⟨_, _, ⟨⟩, -⟩ | ⟨_, _, _, _, ⟨⟩, hname, hown⟩ := hn
      have hwf : spec.type.WF := by
        rcases Option.or_eq_some_iff.1 hspec with hspec | ⟨-, hspec⟩
        · exact hown spec hspec
        · exact htype spec hspec
      refine ⟨List.forall_mem_cons.2 ⟨.inr ⟨_, _, _, _, rfl, hname, hwf⟩, hothers⟩,
        by simpa using hwf, ?_, fun hc => ?_⟩
      · rw [commentsIn_cons, commentsIn_cons, comments_parameter, comments_parameter, hcomments]
      · exact ⟨hc.1, hc.2.1, hc.2.2.1, hchain hc.2.2.2⟩
    · rcases hn with ⟨start, source, rfl, hlexeme⟩ | ⟨_, _, _, _, rfl, -, -⟩
      · refine ⟨List.forall_mem_cons.2 ⟨.inl ⟨_, _, rfl, hlexeme⟩, hothers⟩, htype, ?_, fun hc => ?_⟩
        · rw [commentsIn_cons, commentsIn_cons, hcomments]
        · exact ⟨hc.1, hc.2.1, hc.2.2.1, hchain hc.2.2.2⟩
      · cases htakes

lemma peek?_of_take {t : Token} {message : Text} (h : take kind message c = .ok (t, d)) :
    c.peek? = some t := by
  obtain ⟨u, us, hr, hk⟩ := rest_of_peekKind (peekKind?_of_take h)
  rw [take_run, Cursor.skim_of_kind hr hk] at h
  obtain ⟨rfl, -⟩ := Prod.mk.inj (Except.ok.inj h)
  rw [Cursor.peek?, hr]
  rfl

lemma publicKeyword_reads {x : Bool} (h : c.Stands b l) (hp : publicKeyword c = .ok (x, d)) :
    Passes (b || x) c d l l [] ∧ (c.AtLineEnd → d.AtLineEnd) ∧
      (x = false → d = c.settle ∧ ∀ t ∈ c.peek?, t.kind = .word → t.text ≠ ("pub" : Text)) := by
  obtain ⟨o, c1, ho, hp⟩ := bind_ok_iff.1 hp
  obtain ⟨rfl, rfl⟩ := Prod.mk.inj (Except.ok.inj ho)
  have hs := Passes.settle h
  cases hpeek : c.peek? with
  | none =>
    rw [hpeek] at hp
    obtain ⟨rfl, rfl⟩ := pure_ok_iff.1 hp
    exact ⟨by simpa using hs, fun hc => Cursor.AtLineEnd.settle_iff.2 hc, fun _ => ⟨rfl, by simp⟩⟩
  | some t =>
    rw [hpeek] at hp
    dsimp only at hp
    split_ifs at hp with hpub
    · have hkind : c.peekKind? = some .word := by
        rw [Cursor.peekKind?, hpeek, Option.map_some]
        simp only [Bool.and_eq_true, decide_eq_true_eq] at hpub
        rw [hpub.1]
      refine ⟨hs.trans (skipPlain_reads rfl h.settle hp),
        fun hc => absurd hc (not_atLineEnd hkind (by decide)), ?_⟩
      rintro rfl
      exact absurd (by rw [Cursor.peekKind?_settle]; exact hkind) (peekKind?_ne_of_skip hp)
    · obtain ⟨rfl, rfl⟩ := pure_ok_iff.1 hp
      refine ⟨by simpa using hs, fun hc => Cursor.AtLineEnd.settle_iff.2 hc, fun _ => ⟨rfl, ?_⟩⟩
      rintro _ ⟨⟩ hk hpubText
      simp [hk, hpubText] at hpub

lemma functionName_reads {r : Text × Option TypeSpec × Text} (h : c.Stands b l)
    (hp : functionName c = .ok (r, d)) :
    ¬c.AtLineEnd ∧ Passes true c d l l [] ∧
      match r.2.1 with
      | none =>
        r.1 = [] ∧ IsLexeme .word r.2.2 ∧ ∃ t, c.peek? = some t ∧ t.kind = .word ∧ t.text = r.2.2
      | some spec => (IsLexeme .word r.1 ∧ spec.type.WF) ∧ (r.2.2 = [] ∨ IsLexeme .word r.2.2) := by
  obtain ⟨x, c1, hx, hp⟩ := bind_ok_iff.1 hp
  have hpass1 := skipPlain_reads rfl h hx
  cases x with
  | true =>
    rw [Bool.or_true] at hpass1
    obtain ⟨receiver, c2, hreceiver, hp⟩ := bind_ok_iff.1 hp
    obtain ⟨hfound, hpass2⟩ := takePlain_reads rfl hpass1.stands hreceiver
    obtain ⟨spec, c3, hspec, hp⟩ := bind_ok_iff.1 hp
    obtain ⟨-, hwf, -, -, hpass3⟩ := typeSpec_reads hpass2.stands hspec
    obtain ⟨t, c4, ht, hp⟩ := bind_ok_iff.1 hp
    obtain ⟨-, hpass4⟩ := takePlain_reads rfl hpass3.stands ht
    obtain ⟨o, c5, ho, hp⟩ := bind_ok_iff.1 hp
    obtain ⟨hname, hpass5⟩ := skimPlain_reads rfl hpass4.stands ho
    obtain ⟨rfl, rfl⟩ := pure_ok_iff.1 hp
    refine ⟨not_atLineEnd (peekKind?_of_skip hx) (by decide),
      (((hpass1.trans hpass2).trans hpass3).trans hpass4).trans hpass5, ⟨hfound.lexeme, hwf⟩, ?_⟩
    cases o with
    | none => exact .inl rfl
    | some name => exact .inr (hname name rfl).lexeme
  | false =>
    have hsettle := settle_of_skip hx
    subst hsettle
    obtain ⟨t, c2, ht, hp⟩ := bind_ok_iff.1 hp
    obtain ⟨hfound, hpass2⟩ := takePlain_reads rfl hpass1.stands ht
    obtain ⟨rfl, rfl⟩ := pure_ok_iff.1 hp
    have hpeek := peek?_of_take ht
    rw [Cursor.peek?, Cursor.settle_settle] at hpeek
    refine ⟨fun hc => ?_, hpass1.trans hpass2, rfl, hfound.lexeme, t, hpeek, hfound.isKind, rfl⟩
    exact not_atLineEnd (peekKind?_of_take ht) (by decide) (Cursor.AtLineEnd.settle_iff.2 hc)

def IsResultNode (n : Node) : Prop := ∃ spec, n = .typeSpec spec ∧ spec.type.WF

lemma makes_result : Makes IsResultNode (.typeSpec <$> typeSpec) := by
  intro b c l n d h hp
  rw [map_run] at hp
  cases hspec : typeSpec c with
  | error e => rw [hspec] at hp; cases hp
  | ok r =>
    obtain ⟨spec, c1⟩ := r
    rw [hspec] at hp
    obtain ⟨rfl, rfl⟩ := Prod.mk.inj (Except.ok.inj hp)
    obtain ⟨hline, hwf, hstart, hstop, hpass⟩ := typeSpec_reads h hspec
    exact ⟨hline, rfl, l, hpass, Node.spans_of_line hstart hstop (Int.le_refl l), spec, rfl, hwf⟩

lemma results_reads : ReadsList (fun n => IsCommentNode n ∨ IsResultNode n)
    (firstOf [nakedResults, delimitedResults]) := by
  intro c l nodes d h hp
  obtain ⟨p, hmem, hp⟩ := firstOf_ok hp
  simp only [List.mem_cons, List.not_mem_nil, or_false] at hmem
  rcases hmem with rfl | rfl
  · refine nakedMembers_reads (b := true) ?_ h hp
    simp only [List.forall_mem_cons]
    exact ⟨gives_comma, makes_result.gives fun n hc hn => ⟨.inr hn, hc⟩, by simp⟩
  · obtain ⟨t, c1, ht, hp⟩ := bind_ok_iff.1 hp
    obtain ⟨-, hpass1⟩ := takePlain_reads rfl h ht
    obtain ⟨m, hpass, hrest⟩ :=
      membersUntil_reads (P := fun n => IsCommentNode n ∨ IsResultNode n) (by
        simp only [List.forall_mem_cons]
        exact ⟨gives_comma, gives_comment fun _ _ h => .inl ⟨_, _, rfl, h⟩, gives_newline,
          makes_result.gives fun n _ hn => .inr hn, by simp⟩) hpass1.stands hp
    exact ⟨m, hpass1.trans hpass, hrest⟩

lemma comments_functionDef (head : FunctionHead) (params results body : List Node) :
    (Node.functionDef head params results body).comments =
      commentsIn params ++ commentsIn results ++ commentsIn body := by
  have hreceiver : commentsIn (head.receiverType.toList.map Node.typeSpec) = [] := by
    cases head.receiverType <;> rfl
  rw [Node.comments_of_children rfl, Node.children, commentsIn_append, commentsIn_append,
    commentsIn_append, hreceiver, List.nil_append]

lemma membersWF_params {nodes : List Node} {k m : Int}
    (h : ∀ n ∈ nodes, IsCommentNode n ∨ IsTypedParameter n) (hkl : k ≤ l)
    (hc : Chained l false m nodes) :
    MembersWF (fun p => IsLexeme .word p.name ∧ p.type.WF) (spreadParameters k nodes)
      (memberPlans Node.parameterPlan (spreadParameters k nodes) k nodes) := by
  refine membersWF_memberPlans (fun n hn => ?_) hkl hc ?_ ?_
  · rcases h n hn with hcomment | ⟨start, name, spec, stop, rfl, hname, hwf⟩
    · exact .inl hcomment
    · exact .inr ⟨rfl, hname, hwf⟩
  · rintro hs rfl
    cases hs
  · intro hs
    cases nodes with
    | nil => rfl
    | cons n nodes => exact (Bool.or_eq_false_iff.1 hs).2

lemma membersWF_results {nodes : List Node} {m : Int}
    (h : ∀ n ∈ nodes, IsCommentNode n ∨ IsResultNode n) (hc : Chained l false m nodes) :
    MembersWF TypeExpr.WF (spreadResults l nodes)
      (memberPlans Node.resultPlan (spreadResults l nodes) l nodes) := by
  refine membersWF_memberPlans (fun n hn => ?_) (Int.le_refl l) hc ?_ ?_
  · rcases h n hn with hcomment | ⟨spec, rfl, hwf⟩
    · exact .inl hcomment
    · exact .inr ⟨rfl, hwf⟩
  · rintro hs rfl
    cases hs
  · intro hs
    match nodes, hs with
    | [], _ => rfl
    | [n], hs => rw [List.any_cons, show n.isComment = false from hs]; rfl
    | n :: n' :: nodes, hs => exact (Bool.or_eq_false_iff.1 hs).2

lemma makes_functionDef : Makes IsDefinition functionDef := by
  intro b c l n d h hp
  replace hp := of_here_bind hp
  obtain ⟨isPublic, c2, hpublic, hp⟩ := bind_ok_iff.1 hp
  obtain ⟨hpass2, hline2, hnot⟩ := publicKeyword_reads h.settle hpublic
  obtain ⟨⟨receiverName, receiverType, name⟩, c3, hname, hp⟩ := bind_ok_iff.1 hp
  obtain ⟨hline3, hpass3, hfound⟩ := functionName_reads hpass2.stands hname
  obtain ⟨t, c4, ht, hp⟩ := bind_ok_iff.1 hp
  obtain ⟨-, hpass4⟩ := takePlain_reads rfl hpass3.stands ht
  obtain ⟨params, c5, hparams, hp⟩ := bind_ok_iff.1 hp
  obtain ⟨m5, hpass5, hchain5, hall5⟩ :=
    membersUntil_reads (P := fun n => IsCommentNode n ∨ IsOpenParameter n) (by
      simp only [List.forall_mem_cons]
      exact ⟨gives_comma, gives_comment fun _ _ h => .inl ⟨_, _, rfl, h⟩, gives_newline,
        makes_parameter.gives fun n _ hn => .inr hn, by simp⟩) hpass4.stands hparams
  replace hp := of_lastStop_bind hp
  have hlast := hpass5.stands.last rfl
  cases hfill : fillTypes params with
  | error report =>
    rw [hfill] at hp
    cases hp
  | ok filled =>
    obtain ⟨next, hfilled⟩ := exists_filledTypes hfill
    obtain ⟨hallf, -, hcommentsf, hchainf⟩ := filledTypes_reads hall5 hfilled
    rw [hfill] at hp
    obtain ⟨results, c7, hresults, hp⟩ := bind_ok_iff.1 hp
    obtain ⟨m7, hpass7, hchain7, hall7⟩ := results_reads hpass5.stands hresults
    obtain ⟨opening, c8, hopening, hp⟩ := bind_ok_iff.1 hp
    obtain ⟨hfound8, hpass8⟩ := takePlain_reads rfl hpass7.stands hopening
    obtain ⟨body, c9, hbody, hp⟩ := bind_ok_iff.1 hp
    obtain ⟨m9, hpass9, hchain9, hall9⟩ := readsBlock_statements hpass8.stands hbody
    obtain ⟨stop, hstop, rfl, rfl⟩ := lastStop_bind_ok hpass9.stands hp
    have hpass := (((((((Passes.settle h).trans hpass2).trans hpass3).trans hpass4).trans hpass5).trans
      hpass7).trans hpass8).trans hpass9
    refine ⟨fun hc => hline3 (hline2 (Cursor.AtLineEnd.settle_iff.2 hc)), rfl, m9, ?_,
      Node.spans_of_line h.position hstop hpass.le, ⟨?_, ?_, ?_, ?_⟩, ?_,
      nestedImports_of_isEntry hall9, ?_⟩
    · rw [comments_functionDef, hcommentsf]
      simpa using hpass
    · cases receiverType with
      | some spec => exact hfound
      | none =>
        obtain ⟨-, hlexeme, t, hpeek, hkind, htext⟩ := hfound
        refine ⟨hlexeme, fun hpub hn => ?_⟩
        obtain ⟨rfl, hword⟩ := hnot hpub
        rw [Cursor.peek?, Cursor.settle_settle, ← Cursor.peek?] at hpeek
        exact hword t hpeek hkind (htext.trans hn)
    · exact membersWF_params hallf (Int.le_of_eq h.position) (hchainf hchain5)
    · rw [← hlast] at hchain7
      exact membersWF_results hall7 hchain7
    · rw [← hfound8.line] at hchain9
      have hsub := functionBody_sublist results body
      exact blockWF_entryPlans (fun n hn => hall9 n (hsub.mem hn)) (hchain9.sublist hsub)
    · rw [Node.isFileMember, areStatements_of_isEntry hall9, Bool.and_true, Bool.and_eq_true,
        List.all_eq_true, List.all_eq_true]
      refine ⟨fun n hn => ?_, fun n hn => ?_⟩
      · rcases hallf n hn with ⟨start, source, rfl, -⟩ | ⟨start, name, spec, stop, rfl, -, -⟩ <;> rfl
      · rcases hall7 n hn with ⟨start, source, rfl, -⟩ | ⟨spec, rfl, -⟩ <;> rfl
    · intro hnone
      cases receiverType with
      | none => exact hfound.1
      | some spec => cases hnone

lemma fieldAccess_reads {access : FieldAccess} (h : c.Stands true l)
    (hp : fieldAccess c = .ok (access, d)) : Passes true c d l l [] := by
  obtain ⟨o, c1, ho, hp⟩ := bind_ok_iff.1 hp
  have hpass : Passes true c c1 l l [] := (skimPlain_reads rfl h ho).2
  cases o with
  | none =>
    obtain ⟨-, rfl⟩ := pure_ok_iff.1 hp
    exact hpass
  | some t =>
    dsimp only at hp
    cases hword : FieldAccess.ofWord? t.text with
    | some access =>
      rw [hword] at hp
      obtain ⟨-, rfl⟩ := pure_ok_iff.1 hp
      exact hpass
    | none =>
      rw [hword] at hp
      exact absurd hp not_reject_ok

def IsFieldNode (n : Node) : Prop :=
  ∃ start name spec access stop, n = .field start name spec access stop ∧ IsLexeme .word name ∧
    spec.type.WF

lemma makes_field : Makes IsFieldNode field := by
  intro b c l n d h hp
  obtain ⟨t, c1, ht, hp⟩ := bind_ok_iff.1 hp
  obtain ⟨hfound, hpass1⟩ := takePlain_reads rfl h ht
  obtain ⟨spec, c2, hspec, hp⟩ := bind_ok_iff.1 hp
  obtain ⟨-, hwf, -, -, hpass2⟩ := typeSpec_reads hpass1.stands hspec
  obtain ⟨access, c3, haccess, hp⟩ := bind_ok_iff.1 hp
  have hpass3 := fieldAccess_reads hpass2.stands haccess
  obtain ⟨stop, hstop, rfl, rfl⟩ := lastStop_bind_ok hpass3.stands hp
  exact ⟨not_atLineEnd (peekKind?_of_take ht) nofun, rfl, l, (hpass1.trans hpass2).trans hpass3,
    Node.spans_of_line hfound.line hstop (Int.le_refl l), _, _, _, _, _, rfl, hfound.lexeme, hwf⟩

def IsFieldMember (n : Node) : Prop := IsCommentNode n ∨ IsFieldNode n ∨ IsClause n

variable {access : FieldAccess} {nodes : List Node}

lemma withAccess_reads (access : FieldAccess) (n : Node) :
    (withAccess access n).start = n.start ∧ (withAccess access n).stop = n.stop ∧
      (withAccess access n).isComment = n.isComment ∧ (withAccess access n).comments = n.comments ∧
      (IsFieldMember n → IsFieldMember (withAccess access n)) := by
  cases n with
  | field start name spec own stop =>
    cases own with
    | hidden =>
      refine ⟨rfl, rfl, rfl, rfl, ?_⟩
      rintro (⟨_, _, hn, -⟩ | ⟨_, _, _, _, _, hn, hname, hwf⟩ | hn)
      · cases hn
      · cases hn
        exact .inr (.inl ⟨_, _, _, _, _, rfl, hname, hwf⟩)
      · exact hn.elim
    | _ => exact ⟨rfl, rfl, rfl, rfl, id⟩
  | _ => exact ⟨rfl, rfl, rfl, rfl, id⟩

lemma chained_withAccess {pending : Bool} {m : Int} (h : Chained l pending m nodes) :
    Chained l pending m (nodes.map (withAccess access)) := by
  induction nodes generalizing l pending with
  | nil => exact h
  | cons n nodes ih =>
    obtain ⟨hstart, hstop, hcomment, -⟩ := withAccess_reads access n
    rw [List.map_cons, Chained, hstart, hstop, hcomment]
    exact ⟨h.1, h.2.1, h.2.2.1, ih h.2.2.2⟩

lemma commentsIn_withAccess : commentsIn (nodes.map (withAccess access)) = commentsIn nodes := by
  induction nodes with
  | nil => rfl
  | cons n nodes ih =>
    rw [List.map_cons, commentsIn_cons, commentsIn_cons, ih, (withAccess_reads access n).2.2.2.1]

lemma comments_typeDef (start : Position) (isPublic : Bool) (name : Text) (fields : List Node)
    (stop : Position) :
    (Node.typeDef start isPublic name fields stop).comments = commentsIn fields :=
  Node.comments_of_children rfl

lemma isField_of_isFieldMember {n : Node} (h : IsFieldMember n) : n.isField = true := by
  rcases h with ⟨_, _, rfl, -⟩ | ⟨_, _, _, _, _, rfl, -⟩ | hclause
  · rfl
  · rfl
  · have := isClause_of_isClause hclause
    cases n with
    | importNames => exact this
    | _ => exact hclause.elim

lemma isDefinition_typeDef {start stop : Position} {isPublic : Bool} {name : Text} {m : Int}
    (hname : IsDefinedName isPublic name) (h : ∀ n ∈ nodes, IsFieldMember n)
    (hc : Chained start.line false m nodes) :
    IsDefinition (.typeDef start isPublic name nodes stop) := by
  refine ⟨hname, List.all_eq_true.2 fun n hn => isField_of_isFieldMember (h n hn), ?_, ?_, ?_⟩
  · exact gapsOk_memberPlans true (hc.sublist List.filter_sublist)
  · refine satisfies_memberPlans true _ fun n hn => ?_
    obtain ⟨hmem, hi⟩ := List.mem_filter.1 hn
    rcases h n hmem with hcomment | ⟨_, _, _, _, _, rfl, hword, hwf⟩ | hclause
    · exact .inl hcomment
    · exact .inr ⟨rfl, hword, hwf⟩
    · rw [isImport_of_isClause hclause] at hi
      cases hi
  · intro n hn hi
    rcases h n hn with ⟨_, _, rfl, -⟩ | ⟨_, _, _, _, _, rfl, -⟩ | hclause
    · cases hi
    · cases hi
    · exact hclause

lemma makes_typeDef : Makes IsDefinition typeDef := by
  intro b c l n d h hp
  obtain ⟨r, c1, hr, hp⟩ := bind_ok_iff.1 hp
  obtain ⟨hline, hstart, hname, hpass1⟩ := definedName_reads h hr
  obtain ⟨access, c2, haccess, hp⟩ := bind_ok_iff.1 hp
  have hpass2 := fieldAccess_reads hpass1.stands haccess
  obtain ⟨t, c3, ht, hp⟩ := bind_ok_iff.1 hp
  obtain ⟨-, hpass3⟩ := takePlain_reads rfl hpass2.stands ht
  obtain ⟨fields, c4, hfields, hp⟩ := bind_ok_iff.1 hp
  obtain ⟨m, hpass4, hchain, hall⟩ := membersUntil_reads (P := IsFieldMember) (by
    simp only [List.forall_mem_cons]
    exact ⟨gives_comma, gives_comment fun _ _ h => .inl ⟨_, _, rfl, h⟩,
      makes_field.gives fun n _ hn => .inr (.inl hn),
      makes_importWithKeyword.gives fun n _ hn => .inr (.inr hn), gives_newline, gives_semicolon,
      by simp⟩) hpass3.stands hfields
  obtain ⟨stop, hstop, rfl, rfl⟩ := lastStop_bind_ok hpass4.stands hp
  have hpass := ((hpass1.trans hpass2).trans hpass3).trans hpass4
  rw [← hstart] at hchain
  refine ⟨hline, rfl, m, by rw [comments_typeDef, commentsIn_withAccess]; exact hpass,
    Node.spans_of_line hstart hstop hpass.le,
    isDefinition_typeDef hname (fun n hn => ?_) (chained_withAccess hchain)⟩
  obtain ⟨field, hfield, rfl⟩ := List.mem_map.1 hn
  exact (withAccess_reads _ field).2.2.2.2 (hall field hfield)

lemma makes_pathImport : Makes IsClause pathImport := by
  intro b c l n d h hp
  obtain ⟨t, c1, ht, hp⟩ := bind_ok_iff.1 hp
  obtain ⟨hfound, hpass, -⟩ := take_reads h ht
  have hcomment : t.commentText = [] := if_neg (by rw [hfound.isKind]; decide)
  rw [hcomment] at hpass
  dsimp only at hp
  split_ifs at hp with hq
  · exact absurd hp not_reject_bind_ok
  · obtain ⟨stop, hstop, rfl, rfl⟩ := lastStop_bind_ok hpass.stands hp
    exact ⟨not_atLineEnd (peekKind?_of_take ht) nofun, rfl, _, hpass,
      Node.spans_of_line hfound.line hstop hpass.le, .inr ⟨hfound.lexeme, not_not.1 hq⟩, by simp⟩

lemma importMembers_reads (h : c.Stands true l) (hp : importMembers c = .ok (nodes, d)) :
    ∃ m, Passes true c d l m (commentsIn nodes) ∧ ∀ n ∈ nodes, IsCommentNode n ∨ IsClause n := by
  replace hp := of_peekKind?_bind hp
  have hs := Passes.settle h
  split_ifs at hp with hstring
  · obtain ⟨m, hpass, -, hall⟩ :=
      nakedMembers_reads (b := true) (P := fun n => IsCommentNode n ∨ IsClause n) (by
        simp only [List.forall_mem_cons]
        exact ⟨gives_comma, makes_pathImport.gives fun n hc hn => ⟨.inr hn, hc⟩, by simp⟩) h.settle hp
    exact ⟨m, hs.trans hpass, hall⟩
  · obtain ⟨x, c2, hx, hp⟩ := bind_ok_iff.1 hp
    have hpass2 : Passes true c c2 l l [] := hs.trans (skipPlain_reads rfl h.settle hx)
    cases x with
    | true =>
      obtain ⟨m, hpass, -, hall⟩ :=
        membersUntil_reads (P := fun n => IsCommentNode n ∨ IsClause n) (by
          simp only [List.forall_mem_cons]
          exact ⟨gives_comma, gives_comment fun _ _ h => .inl ⟨_, _, rfl, h⟩,
            makes_pathImport.gives fun n _ hn => .inr hn, gives_newline, by simp⟩) hpass2.stands hp
      exact ⟨m, hpass2.trans hpass, hall⟩
    | false =>
      obtain ⟨t, c3, ht, hp⟩ := bind_ok_iff.1 hp
      obtain ⟨-, hpass3⟩ := takePlain_reads rfl hpass2.stands ht
      obtain ⟨m, hpass, -, hall⟩ :=
        membersUntil_reads (P := fun n => IsCommentNode n ∨ IsClause n) (by
          simp only [List.forall_mem_cons]
          exact ⟨gives_comma, gives_comment fun _ _ h => .inl ⟨_, _, rfl, h⟩,
            makes_importEntry.gives fun n _ hn => .inr hn, gives_newline, gives_semicolon, by simp⟩)
          hpass3.stands hp
      exact ⟨m, (hpass2.trans hpass3).trans hpass, hall⟩

lemma comments_importList (start : Position) (imports : List Node) (stop : Position) :
    (Node.importList start imports stop).comments = commentsIn imports :=
  Node.comments_of_children rfl

lemma makes_importList : Makes IsDefinition importList := by
  intro b c l n d h hp
  obtain ⟨t, c1, ht, hp⟩ := bind_ok_iff.1 hp
  obtain ⟨hfound, hpass1⟩ := takePlain_reads rfl h ht
  obtain ⟨imports, c2, himports, hp⟩ := bind_ok_iff.1 hp
  obtain ⟨m, hpass2, hall⟩ := importMembers_reads hpass1.stands himports
  obtain ⟨stop, hstop, rfl, rfl⟩ := lastStop_bind_ok hpass2.stands hp
  have hpass := hpass1.trans hpass2
  exact ⟨not_atLineEnd (peekKind?_of_take ht) nofun, rfl, m, by rw [comments_importList]; exact hpass,
    Node.spans_of_line hfound.line hstop hpass.le, hall⟩

end Definitions

section Files

variable {nodes : List Node}

lemma ends_atEnd : Ends true atEnd := by
  intro b c l x d h hx
  obtain ⟨rfl, -⟩ := settle_of_atEnd hx
  exact ⟨.settle h, by simp, fun _ => Cursor.peekKind?_settle c⟩

lemma file_reads (h : c.Stands b l) (hp : file c = .ok (nodes, d)) :
    commentsIn nodes = c.comments ∧ (∃ m, Chained l false m nodes) ∧
      ∀ n ∈ nodes, IsCommentNode n ∨ IsDefinition n := by
  obtain ⟨m, hpass, hchain, hall⟩ :=
    members_reads ends_atEnd (P := fun n => IsCommentNode n ∨ IsDefinition n) (by
      simp only [List.forall_mem_cons]
      exact ⟨gives_comment fun _ _ h => .inl ⟨_, _, rfl, h⟩,
        makes_constantDef.gives fun n _ hn => .inr hn, makes_functionDef.gives fun n _ hn => .inr hn,
        makes_importList.gives fun n _ hn => .inr hn, gives_newline, gives_semicolon,
        makes_typeDef.gives fun n _ hn => .inr hn, by simp⟩) h hp
  refine ⟨?_, ⟨_, hchain⟩, fun n hn => (hall n hn).1⟩
  obtain ⟨c', -, hend⟩ := membersWithin_induct (R := fun _ _ _ => True)
    (fun _ _ hx => (settle_of_atEnd hx).1) (fun _ => trivial) (fun _ _ _ _ _ _ _ => trivial) hp
  obtain ⟨rfl, hnone⟩ := settle_of_atEnd hend
  have hcomments := hpass.comments
  have hrest : c'.settle.rest = [] := by
    rw [Cursor.peek?] at hnone
    cases hr : c'.settle.rest with
    | nil => rfl
    | cons t ts => rw [hr] at hnone; cases hnone
  rw [Cursor.comments, Cursor.comments, hrest, List.flatMap_nil, List.append_nil] at hcomments
  exact hcomments.symm

lemma line_getLast {ts : List Token} {t : Token} (h : Lexed l ts) (ht : ts.getLast? = some t) :
    t.stop.line = l + lineEnds ts := by
  induction ts generalizing l with
  | nil => cases ht
  | cons u us ih =>
    obtain ⟨hline, -, -, hrest⟩ := h
    rw [lineEnds, List.map_cons, List.sum_cons, ← lineEnds]
    cases us with
    | nil =>
      obtain rfl : u = t := Option.some.inj ht
      rw [Token.stop, line_after, hline]
      simp [lineEnds]
    | cons v vs =>
      rw [ih hrest (by simpa using ht)]
      omega

lemma stands_ofTokens {ts : List Token} (h : Lexed l ts) : ∃ k, (Cursor.ofTokens ts).Stands false k := by
  cases hlast : ts.getLast? with
  | none =>
    obtain rfl := List.getLast?_eq_none_iff.1 hlast
    exact ⟨0, trivial, rfl, by simp⟩
  | some t =>
    refine ⟨l, h, ?_, by simp⟩
    rw [Cursor.ofTokens, hlast]
    exact line_getLast h hlast

end Files

end DpLang.Parser

namespace DpLang

/-- What is read as a file: comments and definitions in order. -/
structure IsFile (nodes : List Node) : Prop where
  chained : ∃ l m, Chained l false m nodes
  each : ∀ n ∈ nodes, Parser.IsCommentNode n ∨ Parser.IsDefinition n

/-- What is read from the tokens of a text is a file, and its comments are those of the text. -/
theorem isFile_of_parse {p : Position} {t : Text} {tokens : List Token} {nodes : List Node}
    (ht : tokenize p t = .ok tokens) (hp : parse tokens = .ok nodes) :
    IsFile nodes ∧ commentsIn nodes = tokens.flatMap Token.commentText := by
  obtain ⟨l, hstands⟩ := Parser.stands_ofTokens (lexed_tokenize ht)
  cases hfile : Parser.file (.ofTokens tokens) with
  | error e =>
    have : parse tokens = .error e := congrArg (Except.map Prod.fst) hfile
    rw [this] at hp
    cases hp
  | ok r =>
    obtain ⟨found, d⟩ := r
    have hfound : parse tokens = .ok found := congrArg (Except.map Prod.fst) hfile
    rw [hfound] at hp
    obtain rfl := Except.ok.inj hp
    obtain ⟨hcomments, ⟨m, hchain⟩, hall⟩ := Parser.file_reads hstands hfile
    exact ⟨⟨⟨l, m, hchain⟩, hall⟩, hcomments⟩

lemma IsFile.all_isFileMember {nodes : List Node} (h : IsFile nodes) :
    nodes.all Node.isFileMember = true := by
  refine List.all_eq_true.2 fun n hn => ?_
  rcases h.each n hn with ⟨start, source, rfl, -⟩ | hdef
  · rfl
  · cases n with
    | constantDef => exact hdef.2.isExpr
    | functionDef => exact hdef.2.1
    | typeDef => exact hdef.2.1
    | importList start imports stop =>
      refine List.all_eq_true.2 fun k hk => ?_
      rcases hdef k hk with ⟨start, source, rfl, -⟩ | hclause
      · rfl
      · rw [Node.isImportMember, Parser.isClause_of_isClause hclause, Bool.or_true]
    | _ => exact hdef.elim

end DpLang
