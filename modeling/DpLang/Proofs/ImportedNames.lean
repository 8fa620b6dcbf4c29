import DpLang.Proofs.DerivationFile
import DpLang.Proofs.ImportResolution

/-!
# What a file imports

The import block of a file lists what the imports of the file name, wherever they stand, and nothing
else. A name that was imported without a path is listed under the path that provides its namespace,
if exactly one path of the file does, and in full under no path otherwise.
-/

namespace DpLang

section Files

/-- The path is that of an import of the file. -/
def ImportsPath (nodes : List Node) (p : Text) : Prop := ∃ c, IsImportIn nodes c ∧ c.path = p

/-- The name is one of an import of the file with the path. -/
def ImportsName (nodes : List Node) (p : Text) (name : QualifiedName) : Prop :=
  ∃ c, IsImportIn nodes c ∧ c.path = p ∧ ∃ start stop, .identifier start name stop ∈ c.names

/-- The path is one of the file and provides the namespace. -/
def ProvidedBy (nodes : List Node) (name p : Text) : Prop :=
  ImportsPath nodes p ∧ ImportPath.Provides p name

variable {nodes : List Node}

lemma IsFile.isDefinition (hfile : IsFile nodes) {n : Node} (hn : n ∈ nodes)
    (hc : n.isComment = false) : Parser.IsDefinition n := by
  refine (hfile.each n hn).resolve_left ?_
  rintro ⟨start, source, rfl, -⟩
  cases hc

lemma IsImportIn.isClause {c : ImportClause} (h : IsImportIn nodes c) (hfile : IsFile nodes) :
    Parser.IsClause c.node := by
  cases h with
  | listed h hc =>
    refine (hfile.isDefinition h rfl _ hc).resolve_left ?_
    rintro ⟨start, source, hcomment, -⟩
    cases hcomment
  | inFunction h hc =>
    cases hidle : c.isIdle with
    | false => exact (hfile.isDefinition h rfl).2.2.1 _ (hc.mem_nested hidle)
    | true =>
      obtain ⟨hpath, hnames⟩ := Bool.and_eq_true_iff.1 hidle
      refine ⟨.inl (List.isEmpty_iff.1 hpath), ?_⟩
      rw [List.isEmpty_iff.1 hnames]
      exact List.forall_mem_nil _
  | inType h hc => exact (hfile.isDefinition h rfl).2.2.2.2 _ hc rfl

variable {imports : Imports.Consolidated} {p : Text} {Q : List Node → Prop}
  (steps : Consolidation (Commented.split true nodes) imports) (hfile : IsFile nodes)

include hfile in
lemma hasImport_gathered (h : p ≠ [] ∨ ¬ Q []) :
    HasImport steps.gathered p Q ↔ ∃ c, IsImportIn nodes c ∧ c.path = p ∧ Q c.names := by
  constructor
  · rintro ⟨g, hg, c, hc, hp, hq⟩
    exact ⟨c, isImportIn_of_gathered hfile.all_isFileMember steps.gathers hg hc, hp, hq⟩
  · rintro ⟨c, hc, rfl, hq⟩
    have hidle : c.isIdle = false :=
      ImportClause.isIdle_eq_false.2 (h.imp_right fun hnil hnames => hnil (hnames ▸ hq))
    obtain ⟨g, hg, hclause⟩ := gathered_of_isImportIn steps hc hidle
    exact ⟨g, hg, c, hclause, rfl, hq⟩

include hfile in
lemma records_file : Imports.Records steps.providers fun p name => ProvidedBy nodes name p := by
  have hstart : Imports.Records [] fun _ _ => False := fun name => .nowhere fun _ => id
  have hpaths : ∀ g ∈ steps.gathered, ∀ c ∈ g.clause, isImportPath c.path = true := by
    intro g hg c hc
    have hown := isImportIn_of_gathered hfile.all_isFileMember steps.gathers hg hc
    exact Parser.isImportPath_of_isPathText (hown.isClause hfile).1
  refine (records_of_foldlM hstart hpaths steps.provides).congr fun p name => ?_
  rw [false_or, ProvidedBy, ImportsPath]
  constructor
  · rintro ⟨g, hg, c, hc, rfl, hprovides⟩
    exact ⟨⟨c, isImportIn_of_gathered hfile.all_isFileMember steps.gathers hg hc, rfl⟩, hprovides⟩
  · rintro ⟨⟨c, hc, rfl⟩, hprovides⟩
    have hne : c.path ≠ [] := by
      obtain ⟨inner, hinner, -⟩ := hprovides
      simp [hinner]
    obtain ⟨g, hg, c', hc', hp, -⟩ :=
      (hasImport_gathered (Q := fun _ => True) steps hfile (.inl hne)).2 ⟨c, hc, rfl, trivial⟩
    exact ⟨g, hg, c', hc', hp, hprovides⟩

lemma hasImport_steps (hQ : ∀ xs ys, Q (xs ++ ys) ↔ Q xs ∨ Q ys) :
    HasImport (steps.resolved.flatMap Prod.fst) p Q ↔
      ∃ g ∈ steps.gathered, ∃ c ∈ g.clause, c.Yields steps.providers p Q := by
  constructor
  · rintro ⟨r, hr, hc⟩
    obtain ⟨result, hresult, hr⟩ := List.mem_flatMap.1 hr
    obtain ⟨g, hg, hresolve⟩ := mapM_of_mem steps.resolves hresult
    exact ⟨g, hg, (hasImport_resolve hQ hresolve).1 ⟨r, hr, hc⟩⟩
  · rintro ⟨g, hg, hc⟩
    obtain ⟨result, hresult, hresolve⟩ := mem_mapM steps.resolves hg
    obtain ⟨r, hr, hc⟩ := (hasImport_resolve hQ hresolve).2 hc
    exact ⟨r, List.mem_flatMap.2 ⟨result, hresult, hr⟩, hc⟩

lemma hasImport_of_path (hp : p ≠ []) (hQ : ∀ xs ys, Q (xs ++ ys) ↔ Q xs ∨ Q ys) :
    HasImport (steps.resolved.flatMap Prod.fst) p Q ↔
      HasImport steps.gathered p Q ∨ HasImport steps.gathered [] (GoesTo steps.providers p Q) := by
  rw [hasImport_steps steps hQ]
  constructor
  · rintro ⟨g, hg, c, hc, ⟨-, hpath, hq⟩ | ⟨hpath, hgoes | ⟨hnil, -⟩⟩⟩
    · exact .inl ⟨g, hg, c, hc, hpath, hq⟩
    · exact .inr ⟨g, hg, c, hc, hpath, hgoes⟩
    · exact absurd hnil hp
  · rintro (⟨g, hg, c, hc, hpath, hq⟩ | ⟨g, hg, c, hc, hpath, hgoes⟩)
    · exact ⟨g, hg, c, hc, .inl ⟨hpath ▸ hp, hpath, hq⟩⟩
    · exact ⟨g, hg, c, hc, .inr ⟨hpath, .inl hgoes⟩⟩

include hfile in
lemma hasImport_pathless (hQ : ∀ xs ys, Q (xs ++ ys) ↔ Q xs ∨ Q ys) :
    HasImport (steps.resolved.flatMap Prod.fst) [] Q ↔
      HasImport steps.gathered [] fun names =>
        staying steps.providers names ≠ [] ∧ Q (staying steps.providers names) := by
  -- no name goes to the empty path, which provides nothing
  have hnone (names : List Node) : ¬ GoesTo steps.providers [] Q names := by
    rintro ⟨start, name, stop, -, hlookup, -⟩
    have honly := (records_file steps hfile name.namespaceText).eq_some_iff.1 hlookup
    obtain ⟨-, inner, hinner, -⟩ := (honly []).2 rfl
    cases hinner
  rw [hasImport_steps steps hQ]
  constructor
  · rintro ⟨g, hg, c, hc, ⟨hne, hpath, -⟩ | ⟨hpath, hgoes | ⟨-, hstay⟩⟩⟩
    · exact absurd hpath hne
    · exact absurd hgoes (hnone _)
    · exact ⟨g, hg, c, hc, hpath, hstay⟩
  · rintro ⟨g, hg, c, hc, hpath, hstay⟩
    exact ⟨g, hg, c, hc, .inr ⟨hpath, .inr ⟨rfl, hstay⟩⟩⟩

lemma goesTo_namesText {providers : Imports.Providers} {n : Text} {names : List Node} :
    GoesTo providers p (NamesText n) names ↔ ∃ start name stop, .identifier start name stop ∈ names ∧
      providers.lookup name.namespaceText = some (some p) ∧ name.short = n := by
  simp [GoesTo, NamesText, QualifiedName.text, Text.join, List.intercalate]

lemma staying_namesText {providers : Imports.Providers} {n : Text} {names : List Node} :
    staying providers names ≠ [] ∧ NamesText n (staying providers names) ↔
      ∃ start name stop, .identifier start name stop ∈ names ∧
        (∀ p, providers.lookup name.namespaceText ≠ some (some p)) ∧ QualifiedName.text name = n := by
  have hstays (start stop : Position) (name : QualifiedName) :
      .identifier start name stop ∈ staying providers names ↔ .identifier start name stop ∈ names ∧
        ∀ p, providers.lookup name.namespaceText ≠ some (some p) := by
    rw [staying, List.mem_filter, Imports.leaves]
    cases providers.lookup name.namespaceText with
    | none => simp
    | some provider => cases provider <;> simp
  simp only [NamesText, hstays, and_assoc]
  rw [and_iff_right_of_imp]
  rintro ⟨start, name, stop, hmem, hlookup, -⟩
  exact List.ne_nil_of_mem ((hstays start stop name).2 ⟨hmem, hlookup⟩)

include steps in
lemma Consolidation.block_entries : imports.block.entries = steps.entries :=
  congrArg ImportBlock.entries steps.block

/-- The entries of the import block of a file, compared with its imports. -/
structure ImportBlock.Represents (block : ImportBlock) (nodes : List Node) : Prop where
  paths : ∀ p, p ≠ [] → ImportsPath nodes p → ∃ entry ∈ block.entries, entry.path = some p
  /-- Under a path stand the names imported from it, and the short names of those that were imported
  without a path and whose namespace this path provides and no other does. -/
  names : ∀ p, p ≠ [] → ∀ n, (∃ entry ∈ block.entries, entry.path = some p ∧ entry.Lists n) ↔
    (∃ name, ImportsName nodes p name ∧ name.text = n) ∨
      ∃ name, ImportsName nodes [] name ∧ name.short = n ∧
        ProvidedBy nodes name.namespaceText p ∧ ∀ q, ProvidedBy nodes name.namespaceText q → q = p
  /-- Without a path stand the names whose namespace no path or more than one provides. -/
  pathless : ∀ n, (∃ entry ∈ block.entries, entry.path = some [] ∧ entry.Lists n) ↔
    ∃ name, ImportsName nodes [] name ∧ name.text = n ∧
      ((∀ p, ¬ ProvidedBy nodes name.namespaceText p) ∨
        ∃ p q, p ≠ q ∧ ProvidedBy nodes name.namespaceText p ∧ ProvidedBy nodes name.namespaceText q)
  /-- There is no entry of another path, and comments that belong to no import list no name. -/
  only : ∀ entry ∈ block.entries,
    (∀ p ∈ entry.path, ImportsPath nodes p) ∧ (entry.path = none → entry.names = [])
  /-- Two entries have the same path only if different comments stand behind them. -/
  distinct : (block.entries.map fun entry => (entry.path, Imports.tailText entry.tail)).Nodup

include hfile in
lemma ImportsName.ne_nil {name : QualifiedName} (h : ImportsName nodes p name) :
    name.text ≠ [] ∧ name.short ≠ [] := by
  obtain ⟨c, hc, -, start, stop, hname⟩ := h
  have hshort := List.isEmpty_eq_false_iff.1 (Parser.isQualifiedName_short ((hc.isClause hfile).2 _ hname))
  exact ⟨join_ne_nil hshort, hshort⟩

include hfile in
lemma lists_of_path (hp : p ≠ []) (n : Text) :
    (∃ entry ∈ steps.entries, entry.path = some p ∧ entry.Lists n) ↔
      (∃ name, ImportsName nodes p name ∧ name.text = n) ∨
        ∃ name, ImportsName nodes [] name ∧ name.short = n ∧
          ProvidedBy nodes name.namespaceText p ∧ ∀ q, ProvidedBy nodes name.namespaceText q → q = p := by
  have hsole (name : Text) : steps.providers.lookup name = some (some p) ↔
      ProvidedBy nodes name p ∧ ∀ q, ProvidedBy nodes name q → q = p := by
    rw [(records_file steps hfile name).eq_some_iff]
    exact ⟨fun h => ⟨(h p).2 rfl, fun q => (h q).1⟩, fun h q => ⟨h.2 q, fun hq => hq ▸ h.1⟩⟩
  rw [exists_lists steps.sorts, hasImport_of_path steps hp (namesText_append n),
    hasImport_gathered steps hfile (.inl hp), hasImport_gathered steps hfile (.inr (by simp [GoesTo]))]
  simp only [goesTo_namesText, hsole]
  constructor
  · rintro ⟨-, ⟨c, hc, hpath, start, name, stop, hmem, hn⟩ |
      ⟨c, hc, hpath, start, name, stop, hmem, hsole, hn⟩⟩
    · exact .inl ⟨name, ⟨c, hc, hpath, start, stop, hmem⟩, hn⟩
    · exact .inr ⟨name, ⟨c, hc, hpath, start, stop, hmem⟩, hn, hsole⟩
  · rintro (⟨name, hname, rfl⟩ | ⟨name, hname, rfl, hsole⟩)
    · obtain ⟨c, hc, hpath, start, stop, hmem⟩ := id hname
      exact ⟨(hname.ne_nil hfile).1, .inl ⟨c, hc, hpath, start, name, stop, hmem, rfl⟩⟩
    · obtain ⟨c, hc, hpath, start, stop, hmem⟩ := id hname
      exact ⟨(hname.ne_nil hfile).2, .inr ⟨c, hc, hpath, start, name, stop, hmem, hsole, rfl⟩⟩

include hfile in
lemma lists_pathless (n : Text) :
    (∃ entry ∈ steps.entries, entry.path = some [] ∧ entry.Lists n) ↔
      ∃ name, ImportsName nodes [] name ∧ name.text = n ∧
        ((∀ p, ¬ ProvidedBy nodes name.namespaceText p) ∨
          ∃ p q, p ≠ q ∧ ProvidedBy nodes name.namespaceText p ∧ ProvidedBy nodes name.namespaceText q) := by
  have hrecord (name : Text) := (records_file steps hfile name).ne_some_iff
  rw [exists_lists steps.sorts, hasImport_pathless steps hfile (namesText_append n),
    hasImport_gathered steps hfile (.inr (by simp [staying]))]
  simp only [staying_namesText, hrecord]
  constructor
  · rintro ⟨-, c, hc, hpath, start, name, stop, hmem, hproviders, hn⟩
    exact ⟨name, ⟨c, hc, hpath, start, stop, hmem⟩, hn, hproviders⟩
  · rintro ⟨name, hname, rfl, hproviders⟩
    obtain ⟨c, hc, hpath, start, stop, hmem⟩ := id hname
    exact ⟨(hname.ne_nil hfile).1, c, hc, hpath, start, name, stop, hmem, hproviders, rfl⟩

include hfile in
lemma importsPath_of_entry {entry : ImportEntry} (h : entry ∈ steps.entries) (hp : entry.path = some p) :
    ImportsPath nodes p := by
  have hhas := (exists_entry steps.sorts).1 ⟨entry, h, hp⟩
  by_cases hnil : p = []
  · subst hnil
    rw [hasImport_pathless steps hfile (by simp),
      hasImport_gathered steps hfile (.inr (by simp [staying]))] at hhas
    obtain ⟨c, hc, hpath, -⟩ := hhas
    exact ⟨c, hc, hpath⟩
  · rw [hasImport_of_path steps hnil (by simp), hasImport_gathered steps hfile (.inl hnil),
      hasImport_gathered steps hfile (.inr (by simp [GoesTo]))] at hhas
    rcases hhas with ⟨c, hc, hpath, -⟩ | ⟨c, -, -, start, name, stop, -, hlookup, -⟩
    · exact ⟨c, hc, hpath⟩
    · exact (((records_file steps hfile _).eq_some_iff.1 hlookup p).2 rfl).1

include steps hfile in
lemma block_represents : imports.block.Represents nodes := by
  have hentries := steps.block_entries
  constructor
  · rintro p hp ⟨c, hc, hpath⟩
    rw [hentries, exists_entry steps.sorts, hasImport_of_path steps hp (by simp),
      hasImport_gathered steps hfile (.inl hp)]
    exact .inl ⟨c, hc, hpath, trivial⟩
  · rw [hentries]
    exact fun p hp => lists_of_path steps hfile hp
  · rw [hentries]
    exact lists_pathless steps hfile
  · rw [hentries]
    intro entry hentry
    exact ⟨fun p hp => importsPath_of_entry steps hfile hentry hp, names_of_pathless steps.sorts hentry⟩
  · rw [hentries]
    exact entries_distinct steps.sorts

end Files

section Index

lemma place_le {groups : List Commented} {entries : List ImportEntry} {i : Nat}
    (h : Imports.place groups entries = some i) {j : Nat} {group : Commented} (hj : groups[j]? = some group)
    (hdef : group.node.any Node.isDefinition = true) : i ≤ j := by
  obtain ⟨first, hfirst, hle⟩ : ∃ first,
      groups.findIdx? (fun group => group.node.any Node.isDefinition) = some first ∧ first ≤ j := by
    obtain ⟨hlt, hget⟩ := List.getElem?_eq_some_iff.1 hj
    cases hfirst : groups.findIdx? fun group => group.node.any Node.isDefinition with
    | none =>
      have hnone := List.findIdx?_eq_none_iff.1 hfirst group (List.mem_of_getElem? hj)
      rw [hdef] at hnone
      cases hnone
    | some first =>
      obtain ⟨_, _, hbefore⟩ := List.findIdx?_eq_some_iff_getElem.1 hfirst
      refine ⟨first, rfl, Nat.le_of_not_lt fun hj => hbefore j hj ?_⟩
      rw [hget]
      exact hdef
  unfold Imports.place at h
  dsimp only at h
  rw [hfirst] at h
  split at h
  · next index definition _ hsome =>
    obtain rfl := Option.some.inj hsome
    obtain rfl := Option.some.inj h
    exact (Nat.min_le_right _ _).trans hle
  · next hnone => cases hnone
  · split_ifs at h
    obtain rfl := Option.some.inj h
    exact hle

variable {nodes : List Node} {imports : Imports.Consolidated}

lemma exists_importing (steps : Consolidation (Commented.split true nodes) imports)
    (hfile : nodes.all Node.isFileMember = true) (h : steps.entries ≠ []) :
    ∃ g ∈ Commented.split true nodes, g.Importing := by
  by_contra hnone
  have hgather : (Commented.split true nodes).flatMap Imports.gather = [] := by
    refine List.flatMap_eq_nil_iff.2 fun g hg => ?_
    have hidle : ¬ g.Importing := fun himporting => hnone ⟨g, hg, himporting⟩
    unfold Commented.Importing at hidle
    unfold Imports.gather
    cases hnode : g.node with
    | none => rfl
    | some node =>
      rw [hnode] at hidle
      cases node with
      | functionDef => exact absurd trivial hidle
      | typeDef => exact absurd trivial hidle
      | importList => exact absurd trivial hidle
      | importNames =>
        have hmember := List.all_eq_true.1 hfile _ (mem_of_split hg hnode)
        cases hmember
      | _ => rfl
  have hgathered : steps.gathered = [] := by
    have hgathers := steps.gathers
    rw [hgather] at hgathers
    exact (Except.ok.inj hgathers).symm
  have hresolved : steps.resolved = [] := by
    have hresolves := steps.resolves
    rw [hgathered] at hresolves
    exact (Except.ok.inj hresolves).symm
  obtain ⟨ranked, sorted, hranked, hsorted, hentries⟩ := sortedEntries_eq steps.sorts
  rw [hresolved] at hranked hentries
  obtain rfl := Except.ok.inj hranked
  rw [List.reverse_nil, List.mergeSort_nil] at hsorted
  obtain rfl := Except.ok.inj hsorted
  exact h hentries

/-- The index is missing exactly if there is nothing to write, and otherwise that of a group that does
not stand behind a definition. -/
lemma index_fits (steps : Consolidation (Commented.split true nodes) imports)
    (hfile : nodes.all Node.isFileMember = true) :
    (imports.index = none ↔ imports.block.isEmpty = true) ∧
      ∀ i ∈ imports.index, i < (Commented.split true nodes).length ∧
        ∀ j group, (Commented.split true nodes)[j]? = some group →
          group.node.any Node.isDefinition = true → i ≤ j := by
  have hindex := steps.index
  cases hempty : imports.block.isEmpty with
  | true =>
    rw [hempty, if_pos rfl] at hindex
    rw [hindex]
    simp
  | false =>
    rw [hempty, if_neg Bool.false_ne_true] at hindex
    have hsome : Imports.listHeads (Commented.split true nodes) ≠ [] ∨
        steps.entries ≠ [] ∧ ∃ g ∈ Commented.split true nodes, g.Importing := by
      rw [steps.block, ImportBlock.isEmpty, Bool.and_eq_false_iff] at hempty
      refine hempty.imp (by simp) fun hne => ?_
      have hentries : steps.entries ≠ [] := by simpa using hne
      exact ⟨hentries, exists_importing steps hfile hentries⟩
    obtain ⟨index, hplace, hlt⟩ := place_some hsome
    rw [hindex, hplace]
    refine ⟨by simp, fun i hi => ?_⟩
    obtain rfl := Option.some.inj hi
    exact ⟨hlt, fun j group hj hdef => place_le hplace hj hdef⟩

end Index

/-- The imports of a file are neither lost nor invented, wherever they stand in it. -/
theorem consolidate_represents {p : Position} {t : Text} {tokens : List Token} {nodes : List Node}
    (ht : tokenize p t = .ok tokens) (hp : parse tokens = .ok nodes) :
    ∃ imports, Imports.consolidate (Commented.split true nodes) = .ok imports ∧
      imports.block.Represents nodes ∧
      (imports.index = none ↔ imports.block.isEmpty = true) ∧
      ∀ i ∈ imports.index, i < (Commented.split true nodes).length ∧
        ∀ j group, (Commented.split true nodes)[j]? = some group →
          group.node.any Node.isDefinition = true → i ≤ j := by
  have hfile := (isFile_of_parse ht hp).1
  obtain ⟨imports, hc, steps, -⟩ := hfile.consolidate_ok
  exact ⟨imports, hc, block_represents steps hfile, index_fits steps hfile.all_isFileMember⟩

/-- Imports in a list, in a type and in a loop of a function. Two paths provide `x`, one `b::x`, and one
`c`, so `k` and `z` get a path and `x::m` does not. -/
theorem consolidate_represents_everywhere :
    let source : Text := "import \x7b\n\"a/x\"\n\"b/x\" (n)\nx::m, b::x::k\n\x7d\n" ++
      ("t \x7b\nimport \"c\" (y)\nu v\n\x7d\nf() \x7b\nfor \x7b\nimport c::z\n\x7d\n\x7d\n" : Text)
    ∃ tokens nodes, tokenize (.startOf "f") source = .ok tokens ∧ parse tokens = .ok nodes ∧
      ∃ imports, Imports.consolidate (Commented.split true nodes) = .ok imports ∧
        imports.block.Represents nodes ∧
        (imports.index = none ↔ imports.block.isEmpty = true) ∧
        ∀ i ∈ imports.index, i < (Commented.split true nodes).length ∧
          ∀ j group, (Commented.split true nodes)[j]? = some group →
            group.node.any Node.isDefinition = true → i ≤ j := by
  intro source
  obtain ⟨tokens, nodes, ht, hp⟩ := exists_parsed (.startOf "f") source (by decide +kernel)
  exact ⟨tokens, nodes, ht, hp, consolidate_represents ht hp⟩

end DpLang
