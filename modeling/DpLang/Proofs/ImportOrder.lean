import DpLang.Proofs.ImportedNames

/-!
# The order of the import block

The entries of an import block stand in the order of their paths, and the names of an entry in that of
their characters. So an import block without comments depends only on which paths and which names are
imported, not on how often, where and in which order.
-/

namespace DpLang

section Sorting

lemma text_le_iff {a b : Text} : Text.le a b = true ↔ a ≤ b := by
  have hlt : (List.lex b a fun c d => c.toNat < d.toNat) = true ↔ b < a := List.lex_eq_true_iff_lt
  rw [Text.le, Bool.not_eq_true', ← Bool.not_eq_true, hlt, not_lt]

lemma text_le_total (a b : Text) : (Text.le a b || Text.le b a) = true := by
  rw [Bool.or_eq_true, text_le_iff, text_le_iff]
  exact le_total a b

lemma text_le_trans {a b c : Text} (hab : Text.le a b = true) (hbc : Text.le b c = true) :
    Text.le a c = true := by
  rw [text_le_iff] at *
  exact hab.trans hbc

end Sorting

section Names

lemma mergeName_names (name : CommentedName) (items : List CommentedName) :
    (Imports.mergeName name items).map CommentedName.name =
      if name.name ∈ items.map CommentedName.name then items.map CommentedName.name
      else items.map CommentedName.name ++ [name.name] := by
  induction items with
  | nil => rfl
  | cons item items ih =>
    rw [Imports.mergeName]
    by_cases hsame : item.name = name.name
    · rw [if_pos hsame, if_pos (by simp [hsame])]
      rfl
    · rw [if_neg hsame, List.map_cons, List.map_cons, ih]
      by_cases hmem : name.name ∈ items.map CommentedName.name
      · rw [if_pos hmem, if_pos (List.mem_cons_of_mem _ hmem)]
      · have hmem' : name.name ∉ item.name :: items.map CommentedName.name :=
          fun h => (List.mem_cons.1 h).elim (Ne.symm hsame) hmem
        rw [if_neg hmem, if_neg hmem', List.cons_append]

lemma mergeNames_nodup (names items : List CommentedName) (h : (items.map CommentedName.name).Nodup) :
    ((names.foldl (fun items name => Imports.mergeName name items) items).map
      CommentedName.name).Nodup := by
  induction names generalizing items with
  | nil => exact h
  | cons name names ih =>
    rw [List.foldl_cons]
    apply ih
    rw [mergeName_names]
    split_ifs with hmem
    · exact h
    · exact List.nodup_append.2 ⟨h, List.nodup_singleton _, by simpa using hmem⟩

lemma sortedNames_increasing {nodes : List Node} {names : List CommentedName}
    (h : Imports.sortedNames nodes = .ok names) (hne : ∀ name ∈ names, name.name ≠ []) :
    (names.map CommentedName.name).Pairwise (· < ·) := by
  obtain ⟨found, hfound, rfl⟩ := sortedNames_eq h
  split_ifs at hne ⊢ with hrest
  · rw [List.append_nil]
    have hsorted := @List.pairwise_mergeSort CommentedName (fun a b => Text.le a.name b.name)
      (fun a b c => text_le_trans) (fun a b => text_le_total a.name b.name)
      ((found.filterMap id).foldl (fun items name => Imports.mergeName name items) [])
    have hnodup := mergeNames_nodup (found.filterMap id) [] List.nodup_nil
    rw [← ((List.mergeSort_perm _ fun a b => Text.le a.name b.name).map _).nodup_iff, List.Nodup,
      List.pairwise_map] at hnodup
    rw [List.pairwise_map]
    exact (hsorted.and hnodup).imp fun hab => lt_of_le_of_ne (text_le_iff.1 hab.1) hab.2
  · exact absurd rfl (hne _ (List.mem_append_right _ (List.mem_singleton_self _)))

end Names

section Entries

/-- The order of paths in an import block: by the groups of the paths, then by their characters. -/
def ImportPath.Before (p q : Text) : Prop :=
  ∃ g k, ImportPath.group p = .ok g ∧ ImportPath.group q = .ok k ∧
    (g.rank < k.rank ∨ g.rank = k.rank ∧ p < q)

lemma ImportPath.Before.asymm {p q : Text} (h : ImportPath.Before p q) : ¬ ImportPath.Before q p := by
  rintro ⟨k', g', hk', hg', hback⟩
  obtain ⟨g, k, hg, hk, hforth⟩ := h
  obtain rfl := Except.ok.inj (hg.symm.trans hg')
  obtain rfl := Except.ok.inj (hk.symm.trans hk')
  rcases hforth with hlt | ⟨heq, hlt⟩
  · omega
  · exact hback.elim (by omega) fun hback => lt_asymm hlt hback.2

lemma comesBefore_iff {a b : ImportPath.Group × Imports.Merged} : Imports.comesBefore a b = true ↔
    a.1.rank < b.1.rank ∨ a.1.rank = b.1.rank ∧ a.2.path ≤ b.2.path := by
  rw [Imports.comesBefore, Bool.or_eq_true, Bool.and_eq_true, decide_eq_true_eq, beq_iff_eq, text_le_iff]

lemma comesBefore_total (a b : ImportPath.Group × Imports.Merged) :
    (Imports.comesBefore a b || Imports.comesBefore b a) = true := by
  rw [Bool.or_eq_true, comesBefore_iff, comesBefore_iff]
  rcases lt_trichotomy a.1.rank b.1.rank with hlt | heq | hlt
  · exact .inl (.inl hlt)
  · exact (le_total a.2.path b.2.path).imp (fun h => .inr ⟨heq, h⟩) fun h => .inr ⟨heq.symm, h⟩
  · exact .inr (.inl hlt)

lemma comesBefore_trans (a b c : ImportPath.Group × Imports.Merged)
    (hab : Imports.comesBefore a b = true) (hbc : Imports.comesBefore b c = true) :
    Imports.comesBefore a c = true := by
  rw [comesBefore_iff] at *
  rcases hab with hab | ⟨hab, hp⟩
  · exact .inl (hbc.elim hab.trans fun h => h.1 ▸ hab)
  · exact hbc.imp (fun h => hab ▸ h) fun h => ⟨hab.trans h.1, hp.trans h.2⟩

lemma group_of_ranked {items : List Imports.Merged} {ranked : List (ImportPath.Group × Imports.Merged)}
    (h : items.mapM (fun item => do return (← ImportPath.group item.path, item)) = .ok ranked)
    {r : ImportPath.Group × Imports.Merged} (hr : r ∈ ranked.mergeSort Imports.comesBefore) :
    ImportPath.group r.2.path = .ok r.1 := by
  obtain ⟨item, -, hrank⟩ := mapM_of_mem h (List.mem_mergeSort.1 hr)
  rw [(rank_eq hrank).2]
  exact (rank_eq hrank).1

variable {groups : List CommentedImport} {entries : List ImportEntry}

lemma paths_nodup (h : Imports.sortedEntries groups = .ok entries)
    (htail : ∀ entry ∈ entries, entry.tail = none) : (entries.map ImportEntry.path).Nodup := by
  have hkeys : (entries.map fun entry => (entry.path, Imports.tailText entry.tail)) =
      (entries.map ImportEntry.path).map fun path => (path, []) := by
    rw [List.map_map]
    refine List.map_congr_left fun entry hentry => ?_
    rw [htail entry hentry]
    rfl
  have hdistinct := entries_distinct h
  rw [hkeys] at hdistinct
  exact hdistinct.of_map _

lemma paths_increasing (h : Imports.sortedEntries groups = .ok entries)
    (htail : ∀ entry ∈ entries, entry.tail = none) (hpath : ∀ entry ∈ entries, entry.path ≠ none) :
    ∃ paths : List Text, entries.map ImportEntry.path = paths.map some ∧
      paths.Pairwise ImportPath.Before := by
  have hnodup := paths_nodup h htail
  obtain ⟨ranked, sorted, hranked, hsorted, rfl⟩ := sortedEntries_eq h
  split_ifs at hpath hnodup ⊢ with hrest
  · rw [List.append_nil] at hnodup ⊢
    have hpaths : sorted.map ImportEntry.path =
        ((ranked.mergeSort Imports.comesBefore).map fun r => r.2.path).map some := by
      rw [List.map_map]
      refine map_of_mapM hsorted fun r entry hentry => ?_
      obtain ⟨names, -, rfl⟩ := entryOf_eq hentry
      rfl
    refine ⟨_, hpaths, List.pairwise_map.2 ?_⟩
    have hne := (hpaths ▸ hnodup).of_map
    rw [List.Nodup, List.pairwise_map] at hne
    have hle := List.pairwise_mergeSort comesBefore_trans comesBefore_total ranked
    refine (hle.and hne).imp_of_mem fun {a b} ha hb hab => ?_
    refine ⟨a.1, b.1, group_of_ranked hranked ha, group_of_ranked hranked hb, ?_⟩
    exact (comesBefore_iff.1 hab.1).imp_right fun heq => ⟨heq.1, lt_of_le_of_ne heq.2 hab.2⟩
  · exact absurd rfl (hpath _ (List.mem_append_right _ (List.mem_singleton_self _)))

/-- The order of an import block. -/
structure ImportBlock.Ordered (block : ImportBlock) : Prop where
  /-- All entries have paths, and these are strictly increasing. -/
  paths : ∃ paths : List Text, block.entries.map ImportEntry.path = paths.map some ∧
    paths.Pairwise ImportPath.Before
  names : ∀ entry ∈ block.entries, (entry.names.map CommentedName.name).Pairwise (· < ·)

end Entries

section CommentFree

/-- No comment stands in an import, nor between the imports of a list. -/
structure CommentFree (nodes : List Node) : Prop where
  names : ∀ c, IsImportIn nodes c → ∀ n ∈ c.names, n.isComment = false
  lists : ∀ start imports stop, .importList start imports stop ∈ nodes →
    ∀ n ∈ imports, n.isComment = false

/-- Imports without comments. -/
def Vocabulary.bare : Vocabulary where
  comment _ := False
  path := IsPathText
  name n := Parser.IsImportName n ∧ n.isComment = false
  text := IsNameText
  isComment := False.elim
  isImportPath := Parser.isImportPath_of_isPathText
  name_cases {n} h := by
    obtain hcomment | ⟨start, own, stop, heq, htext, hshort⟩ := Vocabulary.lexical.name_cases h.1
    · exact absurd (h.2.symm.trans (Vocabulary.lexical.isComment hcomment)) Bool.false_ne_true
    · exact .inr ⟨start, own, stop, heq, htext, hshort, rfl⟩

variable {nodes : List Node}

lemma bare_clause (hfile : IsFile nodes) (hfree : CommentFree nodes) {c : ImportClause}
    (hc : IsImportIn nodes c) : Vocabulary.bare.Clause c.node := by
  obtain ⟨hpath, hnames⟩ := hc.isClause hfile
  exact ⟨hpath, fun n hn => ⟨hnames n hn, hfree.names c hc n hn⟩⟩

lemma exists_clause_of_isImport {n : Node} (h : n.isImport = true) : ∃ c : ImportClause, n = c.node := by
  cases n with
  | importNames start path names stop => exact ⟨⟨start, path, names, stop⟩, rfl⟩
  | _ => cases h

lemma bare_imports (hfile : IsFile nodes) (hfree : CommentFree nodes) {n : Node} (hn : n ∈ nodes) :
    Vocabulary.bare.Imports n := by
  cases n with
  | functionDef head params results body =>
    intro m hm
    obtain ⟨hstands, c, rfl, -⟩ := standsIn_of_nestedImportsOf body hm
    exact bare_clause hfile hfree (.inFunction hn hstands)
  | typeDef start isPublic name fields stop =>
    intro m hm himport
    obtain ⟨c, rfl⟩ := exists_clause_of_isImport himport
    exact bare_clause hfile hfree (.inType hn hm)
  | importList start imports stop =>
    intro m hm
    obtain ⟨start, source, rfl, -⟩ | hclause := hfile.isDefinition hn rfl m hm
    · cases hfree.lists _ _ _ hn _ hm
    · obtain ⟨c, rfl⟩ := exists_clause_of_isImport (Parser.isImport_of_isClause hclause)
      exact .inr (bare_clause hfile hfree (.listed hn hm))
  | importNames => exact (hfile.isDefinition hn rfl).elim
  | _ => trivial

lemma consolidate_bare (hfile : IsFile nodes) (hfree : CommentFree nodes) :
    ∃ imports, Imports.consolidate (Commented.split true nodes) = .ok imports ∧
      ∃ _ : Consolidation (Commented.split true nodes) imports,
        ∀ entry ∈ imports.block.entries, entry.Sound .bare := by
  have hgather : ∀ g ∈ (Commented.split true nodes).flatMap Imports.gather,
      g.Sound Vocabulary.bare.comment Vocabulary.bare.Clause := by
    intro g hg
    obtain ⟨group, hgroup, hg⟩ := List.mem_flatMap.1 hg
    refine gather_clauses Vocabulary.bare.isComment Vocabulary.Clause.isImport
      (fun n hn => bare_imports hfile hfree (mem_of_split hgroup hn)) ?_ g hg
    -- no import is itself a member of a file
    intro n hn himport
    obtain ⟨c, rfl⟩ := exists_clause_of_isImport himport
    exact (hfile.isDefinition (mem_of_split hgroup hn) rfl).elim
  obtain ⟨gathered, hgathered, hclauses⟩ := mapM_ok fun g hg => clauseOf_ok (hgather g hg)
  obtain ⟨imports, hc, steps, sorted, hentries⟩ :=
    consolidate_gathered hgathered (forall₂_forall hclauses fun _ _ hs => hs)
  have hrest : Imports.leftovers (steps.resolved.flatMap Prod.fst) = [] :=
    List.eq_nil_iff_forall_not_mem.2 hentries.leftovers
  refine ⟨imports, hc, steps, ?_⟩
  rw [hentries.entries, hrest]
  simpa using hentries.sorted

lemma ImportEntry.Sound.tail_eq_none {entry : ImportEntry} (h : entry.Sound .bare) : entry.tail = none :=
  Option.eq_none_iff_forall_not_mem.2 h.tail

lemma ImportEntry.Sound.eq_bare {entry : ImportEntry} (h : entry.Sound .bare) :
    ∃ p, entry = ⟨[], some p, (entry.names.map CommentedName.name).map fun n => ⟨[], n, []⟩, none⟩ := by
  obtain ⟨head, path, names, tail⟩ := entry
  obtain ⟨p, rfl, -⟩ := h.path
  have hhead : head = [] := List.eq_nil_iff_forall_not_mem.2 h.head
  have htail : tail = none := h.tail_eq_none
  have hnames : (names.map CommentedName.name).map (fun n => (⟨[], n, []⟩ : CommentedName)) = names := by
    rw [List.map_map]
    refine (List.map_congr_left fun name hname => ?_).trans (List.map_id names)
    have hsound := h.names name hname
    obtain ⟨nameHead, own, nameTail⟩ := name
    obtain rfl : nameHead = [] := List.eq_nil_iff_forall_not_mem.2 hsound.head
    obtain rfl : nameTail = [] := List.eq_nil_iff_forall_not_mem.2 hsound.tail
    rfl
  exact ⟨p, by rw [hhead, htail, hnames]⟩

/-- No name of an entry without comments is empty, as there are no comments to stand at it. -/
lemma ImportEntry.Sound.lists_iff {entry : ImportEntry} (h : entry.Sound .bare) {n : Text} :
    entry.Lists n ↔ n ∈ entry.names.map CommentedName.name := by
  rw [ImportEntry.Lists, List.mem_map, and_iff_right_of_imp]
  rintro ⟨name, hname, rfl⟩ hnil
  have hsound := h.names name hname
  exact (hsound.alone lexical_named hnil).1 (List.eq_nil_iff_forall_not_mem.2 hsound.head)

variable {imports : Imports.Consolidated}
  (steps : Consolidation (Commented.split true nodes) imports)

include steps in
lemma block_ordered (hbare : ∀ entry ∈ imports.block.entries, entry.Sound .bare) :
    imports.block.Ordered := by
  have hentries := steps.block_entries
  rw [hentries] at hbare
  constructor
  · rw [hentries]
    refine paths_increasing steps.sorts (fun entry hentry => ?_) fun entry hentry => ?_
    · exact (hbare entry hentry).tail_eq_none
    · obtain ⟨p, hp, -⟩ := (hbare entry hentry).path
      simp [hp]
  · rw [hentries]
    intro entry hentry
    obtain ⟨p, hp, -⟩ := (hbare entry hentry).path
    obtain ⟨item, -, heq⟩ := item_of_entry steps.sorts hentry hp
    obtain ⟨names, hnames, rfl⟩ := entryOf_eq heq
    refine sortedNames_increasing hnames fun name hname => ?_
    exact ((hbare _ hentry).lists_iff.2 (List.mem_map_of_mem hname)).1

lemma exists_lists_pathless (hfile : IsFile nodes)
    (h : ∃ entry ∈ steps.entries, entry.path = some []) :
    ∃ n, ∃ entry ∈ steps.entries, entry.path = some [] ∧ entry.Lists n := by
  rw [exists_entry steps.sorts, hasImport_pathless steps hfile (by simp),
    hasImport_gathered steps hfile (.inr (by simp [staying]))] at h
  obtain ⟨c, hc, hpath, hstay, -⟩ := h
  obtain ⟨m, hm⟩ := List.exists_mem_of_ne_nil _ hstay
  obtain ⟨hmem, hleaves⟩ := List.mem_filter.1 hm
  obtain ⟨start, source, rfl, -⟩ | ⟨start, name, stop, rfl, -⟩ :=
    Vocabulary.lexical.name_cases ((hc.isClause hfile).2 m hmem)
  · -- comments do not stay
    cases hleaves
  · have hname : ImportsName nodes [] name := ⟨c, hc, hpath, start, stop, hmem⟩
    refine ⟨name.text, (exists_lists steps.sorts).2 ⟨(hname.ne_nil hfile).1, ?_⟩⟩
    rw [hasImport_pathless steps hfile (namesText_append _),
      hasImport_gathered steps hfile (.inr (by simp [staying]))]
    exact ⟨c, hc, hpath, hstay, start, name, stop, hm, rfl⟩

end CommentFree

section Canonical

variable {nodes nodes' : List Node} {block block' : ImportBlock}

/-- The imports of two files name the same paths, and the same names under each. -/
structure SameImports (nodes nodes' : List Node) : Prop where
  paths : ∀ p, p ≠ [] → (ImportsPath nodes p ↔ ImportsPath nodes' p)
  names : ∀ p name, ImportsName nodes p name ↔ ImportsName nodes' p name

lemma SameImports.symm (h : SameImports nodes nodes') : SameImports nodes' nodes :=
  ⟨fun p hp => (h.paths p hp).symm, fun p name => (h.names p name).symm⟩

lemma SameImports.providedBy_iff (h : SameImports nodes nodes') (name p : Text) :
    ProvidedBy nodes name p ↔ ProvidedBy nodes' name p := by
  rw [ProvidedBy, ProvidedBy]
  refine and_congr_left fun hprovides => h.paths p ?_
  obtain ⟨inner, rfl, -⟩ := hprovides
  simp

lemma SameImports.lists_iff (h : SameImports nodes nodes') (hb : block.Represents nodes)
    (hb' : block'.Represents nodes') (p n : Text) :
    (∃ entry ∈ block.entries, entry.path = some p ∧ entry.Lists n) ↔
      ∃ entry ∈ block'.entries, entry.path = some p ∧ entry.Lists n := by
  by_cases hp : p = []
  · rw [hp, hb.pathless, hb'.pathless]
    simp only [h.names, h.providedBy_iff]
  · rw [hb.names p hp, hb'.names p hp]
    simp only [h.names, h.providedBy_iff]

structure ImportBlock.Bare (block : ImportBlock) (nodes : List Node) : Prop where
  represents : block.Represents nodes
  ordered : block.Ordered
  sound : ∀ entry ∈ block.entries, entry.Sound .bare
  pathless : (∃ entry ∈ block.entries, entry.path = some []) →
    ∃ n, ∃ entry ∈ block.entries, entry.path = some [] ∧ entry.Lists n

lemma exists_bare (hfile : IsFile nodes) (hfree : CommentFree nodes) :
    ∃ imports, Imports.consolidate (Commented.split true nodes) = .ok imports ∧
      imports.block.Bare nodes := by
  obtain ⟨imports, hc, steps, hsound⟩ := consolidate_bare hfile hfree
  have hentries := steps.block_entries
  refine ⟨imports, hc, block_represents steps hfile, block_ordered steps hsound, hsound, ?_⟩
  rw [hentries]
  exact exists_lists_pathless steps hfile

namespace ImportBlock.Bare

lemma eq_of_path (h : block.Bare nodes) {a b : ImportEntry} (ha : a ∈ block.entries)
    (hb : b ∈ block.entries) (hpath : a.path = b.path) : a = b := by
  refine List.inj_on_of_nodup_map h.represents.distinct ha hb ?_
  rw [hpath, (h.sound a ha).tail_eq_none, (h.sound b hb).tail_eq_none]

lemma mem_names_iff (h : block.Bare nodes) {entry : ImportEntry} (hentry : entry ∈ block.entries)
    (n : Text) : n ∈ entry.names.map CommentedName.name ↔
      ∃ other ∈ block.entries, other.path = entry.path ∧ other.Lists n := by
  rw [← (h.sound entry hentry).lists_iff]
  constructor
  · exact fun hlists => ⟨entry, hentry, rfl, hlists⟩
  · rintro ⟨other, hother, hpath, hlists⟩
    rwa [h.eq_of_path hentry hother hpath.symm]

/-- Entries of the same path are equal, as their names have one order only. -/
lemma eq_of_same (h : block.Bare nodes) (h' : block'.Bare nodes') (hsame : SameImports nodes nodes')
    {a b : ImportEntry} (ha : a ∈ block.entries) (hb : b ∈ block'.entries) (hpath : a.path = b.path) :
    a = b := by
  have hnames : a.names.map CommentedName.name = b.names.map CommentedName.name := by
    refine (h.ordered.names a ha).eq_of_mem_iff (h'.ordered.names b hb) fun n => ?_
    obtain ⟨p, hp, -⟩ := (h'.sound b hb).path
    rw [h.mem_names_iff ha, h'.mem_names_iff hb, hpath, hp]
    exact hsame.lists_iff h.represents h'.represents p n
  obtain ⟨p, hp⟩ := (h.sound a ha).eq_bare
  obtain ⟨q, hq⟩ := (h'.sound b hb).eq_bare
  have hpq : some p = some q :=
    (congrArg ImportEntry.path hp).symm.trans (hpath.trans (congrArg ImportEntry.path hq))
  rw [hp, hq, hnames, hpq]

lemma exists_path (h : block.Bare nodes) (h' : block'.Bare nodes') (hsame : SameImports nodes nodes')
    {a : ImportEntry} (ha : a ∈ block.entries) : ∃ b ∈ block'.entries, a.path = b.path := by
  obtain ⟨p, hp, -⟩ := (h.sound a ha).path
  by_cases hnil : p = []
  · subst hnil
    obtain ⟨n, hlists⟩ := h.pathless ⟨a, ha, hp⟩
    obtain ⟨b, hb, hpath, -⟩ := (hsame.lists_iff h.represents h'.represents [] n).1 hlists
    exact ⟨b, hb, hp.trans hpath.symm⟩
  · have himports := (hsame.paths p hnil).1 ((h.represents.only a ha).1 p hp)
    obtain ⟨b, hb, hpath⟩ := h'.represents.paths p hnil himports
    exact ⟨b, hb, hp.trans hpath.symm⟩

lemma entries_subset (h : block.Bare nodes) (h' : block'.Bare nodes')
    (hsame : SameImports nodes nodes') : block.entries ⊆ block'.entries := by
  intro a ha
  obtain ⟨b, hb, hpath⟩ := h.exists_path h' hsame ha
  rwa [h.eq_of_same h' hsame ha hb hpath]

end ImportBlock.Bare

/-- An import block is determined by the set of its entries. -/
lemma ImportBlock.Ordered.entries_eq (h : block.Ordered) (h' : block'.Ordered)
    (hsub : block.entries ⊆ block'.entries) (hsub' : block'.entries ⊆ block.entries) :
    block.entries = block'.entries := by
  let before (a b : ImportEntry) : Prop := ∃ p ∈ a.path, ∃ q ∈ b.path, ImportPath.Before p q
  have hasymm (a b : ImportEntry) (hab : before a b) : ¬ before b a := by
    rintro ⟨q, hq, p, hp, hback⟩
    obtain ⟨p', hp', q', hq', hforth⟩ := hab
    obtain rfl := Option.some.inj (hp.symm.trans hp')
    obtain rfl := Option.some.inj (hq.symm.trans hq')
    exact hforth.asymm hback
  have : Std.Irrefl before := ⟨fun a ha => hasymm a a ha ha⟩
  have : Std.Antisymm before := ⟨fun a b hab hba => absurd hba (hasymm a b hab)⟩
  have hpairwise {block : ImportBlock} (h : block.Ordered) : block.entries.Pairwise before := by
    obtain ⟨paths, heq, hpaths⟩ := h.paths
    have hsome : (paths.map some).Pairwise fun a b => ∃ p ∈ a, ∃ q ∈ b, ImportPath.Before p q :=
      List.pairwise_map.2 (hpaths.imp fun hpq => ⟨_, rfl, _, rfl, hpq⟩)
    rw [← heq] at hsome
    exact List.pairwise_map.1 hsome
  exact List.Subset.antisymm_of_pairwise (hpairwise h) (hpairwise h') hsub hsub'

end Canonical

section Listing

def Node.importMembers : Node → List Node
  | .importList _ imports _ => imports
  | .functionDef _ _ _ body => Node.nestedImportsOf body
  | .typeDef _ _ _ fields _ => fields
  | _ => []

/-- The path and the names of an import. -/
def Node.clause? : Node → Option ImportClause
  | .importNames start path names stop => some ⟨start, path, names, stop⟩
  | _ => none

def Node.name? : Node → Option QualifiedName
  | .identifier _ name _ => some name
  | _ => none

def importsOf (nodes : List Node) : List ImportClause :=
  (nodes.flatMap Node.importMembers).filterMap Node.clause?

def importedNames (nodes : List Node) : List (Text × QualifiedName) :=
  (importsOf nodes).flatMap fun c => (c.names.filterMap Node.name?).map (c.path, ·)

def areCommentFree (nodes : List Node) : Bool :=
  (nodes.flatMap Node.importMembers).all (!·.isComment) &&
    (importsOf nodes).all fun c => c.names.all (!·.isComment)

variable {nodes nodes' : List Node} {c : ImportClause}

lemma mem_importsOf : c ∈ importsOf nodes ↔ ∃ n ∈ nodes, c.node ∈ n.importMembers := by
  have hclause (m : Node) : m.clause? = some c ↔ m = c.node := by
    obtain ⟨start, path, names, stop⟩ := c
    cases m <;> simp [Node.clause?, ImportClause.node]
  rw [importsOf, List.mem_filterMap]
  simp only [hclause, exists_eq_right, List.mem_flatMap]

lemma mem_importsOf_iff (hidle : c.isIdle = false) : c ∈ importsOf nodes ↔ IsImportIn nodes c := by
  rw [mem_importsOf]
  constructor
  · rintro ⟨n, hn, hc⟩
    cases n with
    | importList start imports stop => exact .listed hn hc
    | functionDef head params results body =>
      exact .inFunction hn (standsIn_of_nestedImportsOf body hc).1
    | typeDef start isPublic name fields stop => exact .inType hn hc
    | _ => cases hc
  · intro hc
    cases hc with
    | listed h hc => exact ⟨_, h, hc⟩
    | inFunction h hc => exact ⟨_, h, hc.mem_nested hidle⟩
    | inType h hc => exact ⟨_, h, hc⟩

lemma mem_importedNames {p : Text} {name : QualifiedName} :
    (p, name) ∈ importedNames nodes ↔ ImportsName nodes p name := by
  have hname (m : Node) : m.name? = some name ↔ ∃ start stop, m = .identifier start name stop := by
    cases m <;> simp [Node.name?]
  have hidle {c : ImportClause} {m : Node} (hm : m ∈ c.names) : c.isIdle = false :=
    ImportClause.isIdle_eq_false.2 (.inr (List.ne_nil_of_mem hm))
  rw [importedNames, List.mem_flatMap]
  constructor
  · rintro ⟨c, hc, hmem⟩
    obtain ⟨own, hown, heq⟩ := List.mem_map.1 hmem
    obtain ⟨rfl, rfl⟩ := Prod.mk.inj heq
    obtain ⟨m, hm, hsome⟩ := List.mem_filterMap.1 hown
    obtain ⟨start, stop, rfl⟩ := (hname m).1 hsome
    exact ⟨c, (mem_importsOf_iff (hidle hm)).1 hc, rfl, start, stop, hm⟩
  · rintro ⟨c, hc, rfl, start, stop, hm⟩
    refine ⟨c, (mem_importsOf_iff (hidle hm)).2 hc, List.mem_map_of_mem ?_⟩
    exact List.mem_filterMap.2 ⟨_, hm, rfl⟩

lemma mem_importedPaths {p : Text} (hp : p ≠ []) :
    p ∈ (importsOf nodes).map ImportClause.path ↔ ImportsPath nodes p := by
  rw [List.mem_map]
  constructor
  · rintro ⟨c, hc, rfl⟩
    exact ⟨c, (mem_importsOf_iff (ImportClause.isIdle_eq_false.2 (.inl hp))).1 hc, rfl⟩
  · rintro ⟨c, hc, rfl⟩
    exact ⟨c, (mem_importsOf_iff (ImportClause.isIdle_eq_false.2 (.inl hp))).2 hc, rfl⟩

lemma commentFree_of_all (h : areCommentFree nodes = true) : CommentFree nodes := by
  obtain ⟨hmembers, hnames⟩ := Bool.and_eq_true_iff.1 h
  constructor
  · intro c hc n hn
    have hidle : c.isIdle = false := ImportClause.isIdle_eq_false.2 (.inr (List.ne_nil_of_mem hn))
    have hall := List.all_eq_true.1 hnames c ((mem_importsOf_iff hidle).2 hc)
    simpa using List.all_eq_true.1 hall n hn
  · intro start imports stop hlist n hn
    simpa using List.all_eq_true.1 hmembers n (List.mem_flatMap.2 ⟨_, hlist, hn⟩)

lemma sameImports_of_subset (hnames : importedNames nodes ⊆ importedNames nodes')
    (hnames' : importedNames nodes' ⊆ importedNames nodes)
    (hpaths : (importsOf nodes).map ImportClause.path ⊆ (importsOf nodes').map ImportClause.path)
    (hpaths' : (importsOf nodes').map ImportClause.path ⊆ (importsOf nodes).map ImportClause.path) :
    SameImports nodes nodes' := by
  constructor
  · intro p hp
    rw [← mem_importedPaths hp, ← mem_importedPaths hp]
    exact ⟨@hpaths p, @hpaths' p⟩
  · intro p name
    rw [← mem_importedNames, ← mem_importedNames]
    exact ⟨@hnames _, @hnames' _⟩

end Listing

/-- Without comments in its imports, the import block of a file depends only on what is imported, and
not on the order, the number or the places of the imports. -/
theorem consolidate_canonical {p p' : Position} {t t' : Text} {tokens tokens' : List Token}
    {nodes nodes' : List Node} (ht : tokenize p t = .ok tokens) (hp : parse tokens = .ok nodes)
    (ht' : tokenize p' t' = .ok tokens') (hp' : parse tokens' = .ok nodes')
    (hfree : CommentFree nodes) (hfree' : CommentFree nodes') (hsame : SameImports nodes nodes') :
    ∃ imports imports', Imports.consolidate (Commented.split true nodes) = .ok imports ∧
      Imports.consolidate (Commented.split true nodes') = .ok imports' ∧
      imports.block.entries = imports'.block.entries ∧ imports.block.Ordered := by
  obtain ⟨imports, hc, hbare⟩ := exists_bare (isFile_of_parse ht hp).1 hfree
  obtain ⟨imports', hc', hbare'⟩ := exists_bare (isFile_of_parse ht' hp').1 hfree'
  have hsub := hbare.entries_subset hbare' hsame
  have hsub' := hbare'.entries_subset hbare hsame.symm
  exact ⟨imports, imports', hc, hc', hbare.ordered.entries_eq hbare'.ordered hsub hsub', hbare.ordered⟩

/-- An import list, and the same imports in other places, of which some are repeated. The path `"a/b"`
provides `b`, and no path provides `w`. -/
theorem consolidate_canonical_scattered :
    let source : Text := "import \x7b\n\"c\" (y, x)\n\"a/b\"\nb::m, w::k\n\x7d\n"
    let source' : Text := "import \x7b\nw::k\n\"a/b\"\n\x7d\nt \x7b\nimport \"c\" (x)\n" ++
      ("import \"c\" (y, x)\nu v\n\x7d\nf() \x7b\nfor \x7b\nimport w::k, b::m\n\x7d\n\x7d\n" : Text)
    ∃ tokens nodes tokens' nodes',
      tokenize (.startOf "f") source = .ok tokens ∧ parse tokens = .ok nodes ∧
      tokenize (.startOf "g") source' = .ok tokens' ∧ parse tokens' = .ok nodes' ∧
      CommentFree nodes ∧ CommentFree nodes' ∧ SameImports nodes nodes' ∧
      ∃ imports imports', Imports.consolidate (Commented.split true nodes) = .ok imports ∧
        Imports.consolidate (Commented.split true nodes') = .ok imports' ∧
        imports.block.entries = imports'.block.entries ∧ imports.block.Ordered := by
  intro source source'
  let c : Text := "\"c\""
  let names : List (Text × QualifiedName) := [(c, ["y"]), (c, ["x"]), ([], ["b", "m"]), ([], ["w", "k"])]
  let names' : List (Text × QualifiedName) :=
    [([], ["w", "k"]), (c, ["x"]), (c, ["y"]), (c, ["x"]), ([], ["w", "k"]), ([], ["b", "m"])]
  let paths : List Text := [c, "\"a/b\"".toList, []]
  let paths' : List Text := [[], "\"a/b\"".toList, c, c, []]
  obtain ⟨tokens, nodes, ht, hp, hcheck⟩ := exists_parsed_with (.startOf "f") source
    (fun nodes => areCommentFree nodes && decide (importedNames nodes = names) &&
      decide ((importsOf nodes).map ImportClause.path = paths)) (by decide +kernel)
  obtain ⟨tokens', nodes', ht', hp', hcheck'⟩ := exists_parsed_with (.startOf "g") source'
    (fun nodes => areCommentFree nodes && decide (importedNames nodes = names') &&
      decide ((importsOf nodes).map ImportClause.path = paths')) (by decide +kernel)
  simp only [Bool.and_eq_true, decide_eq_true_eq] at hcheck hcheck'
  obtain ⟨⟨hfree, hnames⟩, hpaths⟩ := hcheck
  obtain ⟨⟨hfree', hnames'⟩, hpaths'⟩ := hcheck'
  have hsame : SameImports nodes nodes' := by
    apply sameImports_of_subset
    · rw [hnames, hnames']
      decide
    · rw [hnames, hnames']
      decide
    · rw [hpaths, hpaths']
      decide
    · rw [hpaths, hpaths']
      decide
  exact ⟨tokens, nodes, tokens', nodes', ht, hp, ht', hp', commentFree_of_all hfree,
    commentFree_of_all hfree', hsame, consolidate_canonical ht hp ht' hp' (commentFree_of_all hfree)
      (commentFree_of_all hfree') hsame⟩

end DpLang
