import DpLang.Proofs.ImportResolution
import DpLang.Proofs.KeptTexts
import DpLang.Proofs.Subexpressions

/-!
# Every parsed file has a layout

The parser puts no node where the layout does not expect it. An import path without quotes is all that
the layout refuses, and it comes from tokens that are those of no text. In aligned columns every node
has its row, and every cell of a row has its width.
-/

namespace DpLang

namespace Columns

/-- A node has a row unless it has no columns or is a comment. The row has a cell for each value of
the node, and the cells are among the first `count`. -/
def RowFits (columns : Node → List Text) (count : Nat) (node : Node) (row : Option (List Nat)) :
    Prop :=
  (row = none → columns node = [] ∨ node.isComment = true) ∧
    ∀ cells ∈ row, cells.length = (columns node).length ∧ ∀ cell ∈ cells, cell < count

lemma cells_fits (columns : Node → List Text) (previous : Option Int) (above widths : List Nat)
    (nodes : List Node) (h : ∀ cell ∈ above, cell < widths.length) :
    widths.length ≤ (cells columns previous above widths nodes).2.length ∧
      List.Forall₂ (RowFits columns (cells columns previous above widths nodes).2.length) nodes
        (cells columns previous above widths nodes).1 := by
  induction nodes generalizing previous above widths with
  | nil => exact ⟨Nat.le_refl _, .nil⟩
  | cons node nodes ih =>
    rw [cells]
    dsimp only
    by_cases hsame : (previous.map (node.start.line - ·) == some 0 && node.isComment) = true
    · rw [if_pos hsame]
      obtain ⟨hle, hrows⟩ := ih (some node.stop.line) above widths h
      have hcomment := (Bool.and_eq_true_iff.1 hsame).2
      exact ⟨hle, .cons ⟨fun _ => .inr hcomment, by simp⟩ hrows⟩
    rw [if_neg hsame]
    cases hcolumns : columns node with
    | nil =>
      obtain ⟨hle, hrows⟩ := ih (some node.stop.line) [] widths (by simp)
      exact ⟨hle, .cons ⟨fun _ => .inl hcolumns, by simp⟩ hrows⟩
    | cons value values =>
      dsimp only
      have hshared : ∀ cell ∈ (if (previous.map (node.start.line - ·)).any (1 < ·) then [] else above),
          cell < widths.length := by
        split_ifs
        · simp
        · exact h
      generalize (if (previous.map (node.start.line - ·)).any (1 < ·) then [] else above) = shared
        at hshared
      obtain ⟨⟨hplaced, -⟩, hrow, -⟩ := place_placed (value :: values) hshared
      have hlength := place_length shared (value :: values) widths
      generalize place shared (value :: values) widths = placed at hplaced hrow hlength
      have hnext : ∀ cell ∈ (if node.onOneLine then placed.1 else []), cell < placed.2.length := by
        split_ifs
        · exact hrow
        · simp
      obtain ⟨hle, hrows⟩ := ih (some node.stop.line) _ placed.2 hnext
      refine ⟨Nat.le_trans hplaced hle, .cons ⟨by simp, fun cells hcells => ?_⟩ hrows⟩
      obtain rfl := Option.some.inj hcells
      rw [hcolumns]
      exact ⟨hlength, fun cell hcell => Nat.lt_of_lt_of_le (hrow cell hcell) hle⟩

end Columns

section Imports

variable {nodes : List Node}

lemma provideAll_cases (providers : Imports.Providers) (clause : Option ImportClause) :
    (∃ next, Imports.provideAll providers clause = .ok next ∧
      ∀ c ∈ clause, isImportPath c.path = true) ∨
    ∃ c ∈ clause, isImportPath c.path = false ∧
      Imports.provideAll providers clause = .error (.unquotedPath c.path) := by
  unfold Imports.provideAll
  cases clause with
  | none => exact .inl ⟨providers, rfl, by simp⟩
  | some c =>
    dsimp only
    cases he : c.path.isEmpty with
    | true =>
      refine .inl ⟨providers, rfl, ?_⟩
      rintro _ ⟨⟩
      rw [isImportPath, he, Bool.true_or]
    | false =>
      rw [if_neg Bool.false_ne_true]
      cases hpath : isImportPath c.path with
      | true =>
        obtain ⟨inner, complete, hu⟩ := unquote_ok hpath he
        rw [hu]
        exact .inl ⟨_, rfl, by simpa using hpath⟩
      | false =>
        refine .inr ⟨c, rfl, hpath, ?_⟩
        rw [isImportPath, he, Bool.false_or] at hpath
        rw [ImportPath.unquote, if_neg (by rw [hpath]; exact Bool.false_ne_true)]
        rfl

/-- The first path that is not in quotes is reported. -/
lemma provides_cases (gathered : List CommentedImport) (start : Imports.Providers) :
    (∃ final, gathered.foldlM (fun ps g => Imports.provideAll ps g.clause) start = .ok final ∧
      ∀ g ∈ gathered, ∀ c ∈ g.clause, isImportPath c.path = true) ∨
    ∃ g ∈ gathered, ∃ c ∈ g.clause, isImportPath c.path = false ∧
      gathered.foldlM (fun ps g => Imports.provideAll ps g.clause) start = .error (.unquotedPath c.path) := by
  induction gathered generalizing start with
  | nil => exact .inl ⟨start, rfl, by simp⟩
  | cons g gathered ih =>
    rw [List.foldlM_cons]
    obtain ⟨next, hnext, hg⟩ | ⟨c, hc, hpath, herror⟩ := provideAll_cases start g.clause
    · rw [hnext]
      obtain ⟨final, hfinal, hrest⟩ | ⟨g', hg', c, hc, hpath, herror⟩ := ih next
      · exact .inl ⟨final, hfinal, List.forall_mem_cons.2 ⟨hg, hrest⟩⟩
      · exact .inr ⟨g', List.mem_cons_of_mem _ hg', c, hc, hpath, herror⟩
    · rw [herror]
      exact .inr ⟨g, List.mem_cons_self, c, hc, hpath, rfl⟩

lemma clauseOf_plain {g : Commented}
    (h : g.Sound (fun n => n.isComment = true) fun n => n.isClause = true) :
    ∃ r, Imports.clauseOf g = .ok r ∧
      ((∀ c ∈ r.clause, isImportPath c.path = true) → r.Sound .plain) := by
  unfold Imports.clauseOf
  cases hnode : g.node with
  | none => exact ⟨_, rfl, fun _ => ⟨h.head, h.tail, by simp, by simp⟩⟩
  | some node =>
    have hclause := (h.node node hnode).1
    cases node with
    | importNames start path names stop =>
      refine ⟨_, rfl, fun hpath => ⟨h.head, h.tail, hpath, fun c hc => ?_⟩⟩
      obtain rfl := Option.some.inj hc
      exact List.all_eq_true.1 hclause
    | _ => cases hclause

lemma gather_plain {group : Commented} (h : group.Plain) :
    ∀ g ∈ Imports.gather group,
      g.Sound (fun n => n.isComment = true) fun n => n.isClause = true := by
  refine gather_clauses id isImport_of_isClause (fun n hn => ?_) fun n hn himport => ?_
  · exact importsAre_of_isFileMember (h.node n hn).1
  · -- no import is itself a member of a file
    have hmember := (h.node n hn).1
    cases n with
    | importNames => cases hmember
    | _ => cases himport

/-- The imports of a file can be consolidated, unless the path of one is not in quotes. -/
lemma consolidate_cases (h : nodes.all Node.isFileMember = true) :
    (∃ imports, Imports.consolidate (Commented.split true nodes) = .ok imports ∧
      ∃ sorted leftovers, imports.block.Sound .plain sorted leftovers) ∨
    ∃ c, IsImportIn nodes c ∧ isImportPath c.path = false ∧
      Imports.consolidate (Commented.split true nodes) = .error (.unquotedPath c.path) := by
  have hgroups := split_plain h
  have hgather : ∀ g ∈ (Commented.split true nodes).flatMap Imports.gather, ∃ r,
      Imports.clauseOf g = .ok r ∧
        ((∀ c ∈ r.clause, isImportPath c.path = true) → r.Sound .plain) := by
    intro g hg
    obtain ⟨group, hgroup, hg⟩ := List.mem_flatMap.1 hg
    exact clauseOf_plain (gather_plain (hgroups group hgroup) g hg)
  obtain ⟨gathered, hgathered, hclauses⟩ := mapM_ok hgather
  have hsound := forall₂_forall hclauses fun _ _ hs => hs
  obtain ⟨-, -, hpaths⟩ | ⟨g, hg, c, hc, hpath, herror⟩ := provides_cases gathered []
  · obtain ⟨imports, hc, steps, sorted, hentries⟩ :=
      consolidate_gathered hgathered fun g hg => hsound g hg (hpaths g hg)
    refine .inl ⟨imports, hc, sorted, _, ?_, hentries⟩
    rw [steps.block]
    exact listHeads_comment fun g hg => (hgroups g hg).head
  · refine .inr ⟨c, isImportIn_of_gathered h hgathered hg hc, hpath, ?_⟩
    rw [Imports.consolidate, hgathered, bind_ok, herror]
    rfl

end Imports

section Groups

variable {V : Vocabulary}

lemma entryText_ok {previous : Option Text} (hprevious : ∀ p ∈ previous, isImportPath p = true)
    {entry : ImportEntry} (h : entry.Sound V) : ∃ text, entry.text previous = .ok text := by
  obtain ⟨path, hp, hpath⟩ := h.path
  unfold ImportEntry.text
  rw [hp]
  cases previous with
  | none => exact ⟨_, rfl⟩
  | some previous =>
    dsimp only
    rw [group_eq (hprevious previous rfl), group_eq (V.isImportPath hpath)]
    exact ⟨_, rfl⟩

lemma entriesText_ok (leftovers : List Node) {sorted : List ImportEntry}
    (h : ∀ entry ∈ sorted, entry.Sound V) {previous : Option Text}
    (hprevious : ∀ p ∈ previous, isImportPath p = true) :
    ∃ text, ImportBlock.entriesText previous
      (sorted ++ if leftovers.isEmpty then [] else [⟨leftovers, none, [], none⟩]) = .ok text := by
  induction sorted generalizing previous with
  | nil => cases leftovers <;> exact ⟨_, rfl⟩
  | cons entry sorted ih =>
    rw [List.forall_mem_cons] at h
    have hnext : ∀ p ∈ entry.path, isImportPath p = true := by
      obtain ⟨path, hp, hpath⟩ := h.1.path
      rw [hp]
      rintro _ ⟨⟩
      exact V.isImportPath hpath
    obtain ⟨text, htext⟩ := entryText_ok hprevious h.1
    obtain ⟨rest, hrest⟩ := ih h.2 hnext
    rw [List.cons_append, ImportBlock.entriesText, htext, bind_ok, hrest]
    exact ⟨_, rfl⟩

lemma blockText_ok {block : ImportBlock} {sorted : List ImportEntry} {leftovers : List Node}
    (h : block.Sound V sorted leftovers) : ∃ text, block.text = .ok text := by
  have hfirst : ∀ p ∈ (none : Option Text), isImportPath p = true := by simp
  obtain ⟨text, htext⟩ := entriesText_ok leftovers h.entries.sorted hfirst
  rw [ImportBlock.text, h.entries.entries, htext]
  exact ⟨_, rfl⟩

lemma writeGroup_ok {block : Option ImportBlock} (hb : ∀ b ∈ block, ∃ text, b.text = .ok text)
    {group : Commented} (h : group.Plain) (page : Page) :
    ∃ next, File.writeGroup block group page = .ok next := by
  unfold File.writeGroup
  cases block with
  | none => exact ⟨_, writeMembers_eq h _⟩
  | some block =>
    obtain ⟨text, htext⟩ := hb block rfl
    dsimp only
    rw [htext]
    exact ⟨_, writeMembers_eq h _⟩

lemma writeGroups_ok {imports : Imports.Consolidated} {text : Text} (hb : imports.block.text = .ok text)
    (index : Nat) (previous : Option (Option Node)) (page : Page) {groups : List Commented}
    (h : ∀ g ∈ groups, g.Plain) :
    ∃ next, File.writeGroups imports index previous page groups = .ok next := by
  induction groups generalizing index previous page with
  | nil => exact ⟨page, rfl⟩
  | cons group groups ih =>
    rw [List.forall_mem_cons] at h
    rw [File.writeGroups]
    dsimp only
    split
    · exact ih _ _ _ h.2
    · have hblock : ∀ b ∈ (if (imports.index == some index) = true then some imports.block else none),
          ∃ text, b.text = .ok text := by
        intro b hmem
        split at hmem
        · rw [← Option.some.inj hmem]
          exact ⟨text, hb⟩
        · cases hmem
      obtain ⟨next, hnext⟩ := writeGroup_ok hblock h.1 _
      rw [hnext]
      exact ih _ _ _ h.2

end Groups

lemma layout_cases {nodes : List Node} (h : nodes.all Node.isFileMember = true) :
    (∃ text, layout nodes = .ok text) ∨
      ∃ c, IsImportIn nodes c ∧ isImportPath c.path = false ∧
        layout nodes = .error (.unquotedPath c.path) := by
  unfold layout
  cases hempty : nodes.isEmpty with
  | true => exact .inl ⟨_, rfl⟩
  | false =>
    rw [if_neg Bool.false_ne_true]
    dsimp only
    obtain ⟨imports, hc, sorted, leftovers, hb⟩ | ⟨c, hc, hpath, herror⟩ := consolidate_cases h
    · obtain ⟨text, htext⟩ := blockText_ok hb
      obtain ⟨page, hpage⟩ := writeGroups_ok htext 0 none .blank (split_plain h)
      rw [hc, bind_ok, hpage]
      exact .inl ⟨_, rfl⟩
    · rw [herror]
      exact .inr ⟨c, hc, hpath, rfl⟩

section Paths

variable {n : Node} {nodes : List Node} {c : ImportClause}

lemma mem_walkAll_of_mem (h : n ∈ nodes) : n ∈ Node.walkAll nodes := by
  refine mem_walkAll.2 ⟨n, h, ?_⟩
  rw [Node.walk_eq]
  exact List.mem_cons_self

lemma mem_walkAll_of_below {m : Node} {inner : List Node} (hn : n ∈ nodes) (hs : inner ⊆ n.children)
    (hm : m ∈ Node.walkAll inner) : m ∈ Node.walkAll nodes := by
  obtain ⟨child, hchild, hm⟩ := mem_walkAll.1 hm
  refine mem_walkAll.2 ⟨n, hn, ?_⟩
  rw [Node.walk_eq]
  exact List.mem_cons_of_mem _ (mem_walkAll.2 ⟨child, hs hchild, hm⟩)

lemma StandsIn.mem_walkAll (h : StandsIn n nodes) : n ∈ Node.walkAll nodes := by
  induction h with
  | here hn => exact mem_walkAll_of_mem hn
  | block hn _ ih => exact mem_walkAll_of_below hn (List.Subset.refl _) ih
  | forLoop hn _ ih => exact mem_walkAll_of_below hn (List.subset_append_right _ _) ih
  | thenBody hn _ ih => exact mem_walkAll_of_below hn (by simp [Node.children]) ih
  | elseBody hn _ ih => exact mem_walkAll_of_below hn (by simp [Node.children]) ih

lemma IsImportIn.mem_walkAll (h : IsImportIn nodes c) : c.node ∈ Node.walkAll nodes := by
  cases h with
  | listed hn hc => exact mem_walkAll_of_below hn (List.Subset.refl _) (mem_walkAll_of_mem hc)
  | inFunction hn hc => exact mem_walkAll_of_below hn (List.subset_append_right _ _) hc.mem_walkAll
  | inType hn hc => exact mem_walkAll_of_below hn (List.Subset.refl _) (mem_walkAll_of_mem hc)

lemma exists_token_of_path {tokens : List Token} (hparse : parse tokens = .ok nodes)
    (h : IsImportIn nodes c) (hne : c.path ≠ []) : ∃ t ∈ tokens, t.kind = .string ∧ t.text = c.path := by
  obtain ⟨finish, hderives⟩ := exists_derives hparse
  have hkept := hderives.keptTexts
  rw [keptText?_solidTokens, keptIn_nodes, List.filterMap_nil, List.append_nil] at hkept
  have hmem : (TokenKind.string, c.path) ∈ keptTexts nodes := by
    refine List.mem_filterMap.2 ⟨c.node, h.mem_walkAll, ?_⟩
    exact if_neg (by simpa using hne)
  rw [← hkept] at hmem
  obtain ⟨t, ht, htext⟩ := List.mem_filterMap.1 hmem
  rw [Token.keptText?] at htext
  split at htext
  · exact ⟨t, ht, congrArg Prod.fst (Option.some.inj htext), congrArg Prod.snd (Option.some.inj htext)⟩
  · cases htext

end Paths

/-- Every parsed file has a layout, except that an import path is the text of a token and may be without
quotes if the tokens are not those of a text. No node is out of place and no parameter without a type.
Whatever stands in aligned columns, every row and every width that is looked up is there. -/
theorem layout_of_parse {tokens : List Token} {nodes : List Node} (hparse : parse tokens = .ok nodes) :
    ((∃ text, layout nodes = .ok text) ∨
      ∃ t ∈ tokens, t.kind = .string ∧ isImportPath t.text = false ∧
        layout nodes = .error (.unquotedPath t.text)) ∧
    ((∃ p source, tokenize p source = .ok tokens) → ∃ text, layout nodes = .ok text) ∧
    ∀ (columns : Node → List Text) (members : List Node),
      List.Forall₂ (Columns.RowFits columns (Columns.cells columns none [] [] members).2.length)
        members (Columns.cells columns none [] [] members).1 := by
  refine ⟨?_, ?_, fun columns members => ?_⟩
  · refine (layout_cases (isFileMember_of_parse hparse)).imp_right ?_
    rintro ⟨c, hc, hpath, herror⟩
    have hne : c.path ≠ [] := by
      intro hnil
      rw [hnil] at hpath
      cases hpath
    obtain ⟨t, ht, hkind, htext⟩ := exists_token_of_path hparse hc hne
    exact ⟨t, ht, hkind, htext ▸ hpath, htext ▸ herror⟩
  · rintro ⟨p, source, ht⟩
    exact ⟨_, (isFile_of_parse ht hparse).1.layout_eq⟩
  · exact (Columns.cells_fits columns none [] [] members (by simp)).2

/-- Names with a path and without, a type with two fields, and parameters of which one inherits its
type. -/
theorem layout_of_parse_definitions :
    let source : Text :=
      ("import \x7b \"p\" (a, b::c), d \x7d\nt visible \x7b\n a &b\n long [c] mutable\n\x7d\n" : Text) ++
      ("f(x,\n yy t) (u) \x7b\n v := nil\n for v \x7b w : auto \x7d // e\n\x7d\n" : Text)
    ∃ tokens nodes, tokenize (.startOf "f") source = .ok tokens ∧ parse tokens = .ok nodes ∧
      (∃ text, layout nodes = .ok text) ∧
        ∀ (columns : Node → List Text) (members : List Node),
          List.Forall₂ (Columns.RowFits columns (Columns.cells columns none [] [] members).2.length)
            members (Columns.cells columns none [] [] members).1 := by
  intro source
  obtain ⟨tokens, nodes, ht, hp⟩ := exists_parsed (.startOf "f") source (by decide +kernel)
  obtain ⟨-, htext, hcolumns⟩ := layout_of_parse hp
  exact ⟨tokens, nodes, ht, hp, htext ⟨_, _, ht⟩, hcolumns⟩

/-- An import whose path is a single quote, a token that stands in no text. -/
theorem layout_of_lone_quote :
    let p : Position := .startOf "f"
    let tokens : List Token := [⟨p, .keyword .importKw, "import"⟩, ⟨p.after "import", .space, " "⟩,
      ⟨p.after "import ", .string, "\""⟩]
    ∃ nodes, parse tokens = .ok nodes ∧ layout nodes = .error (.unquotedPath "\"") := by
  intro p tokens
  have h : ((parse tokens).toOption.any fun nodes =>
    match layout nodes with
    | .ok _ => false
    | .error fault => fault = .unquotedPath "\"") = true := by decide +kernel
  obtain ⟨nodes, hparse, hlayout⟩ := exists_of_toOption_any h
  refine ⟨nodes, hparse, ?_⟩
  cases hl : layout nodes with
  | ok text => simp [hl] at hlayout
  | error fault => simpa [hl] using hlayout

end DpLang
