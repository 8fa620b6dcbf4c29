import DpLang.Proofs.Canonical
import DpLang.Proofs.CommentPieces
import DpLang.Proofs.SpellingFile
import DpLang.Proofs.WellformedFile

/-!
# What becomes of comments

Every comment of a file that was read stands in the formatted text, stripped of the blanks around it,
unless it belongs to an import without a path. Such an import is taken apart: its names go to the
imports that provide them. The comments among the names are lost, the one behind the import is lost if
no name remains, and those in front of it if there was none.
-/

namespace DpLang

section Groups

lemma splitAfter_nodes (onGap : Bool) (head : List Node) (skipped : Nat) (nodes : List Node) :
    (Commented.splitAfter onGap head skipped nodes).flatMap Commented.nodes =
      head ++ nodes.drop skipped := by
  induction nodes generalizing head skipped with
  | nil =>
    rw [Commented.splitAfter]
    cases head <;> simp [Commented.nodes]
  | cons node nodes ih =>
    cases skipped with
    | succ skipped => exact ih head skipped
    | zero =>
      rw [Commented.splitAfter]
      dsimp only
      split
      · split
        · simp [ih, Commented.nodes]
        · simp [ih]
      · have htail : ∀ tail, tail <+: nodes → tail ++ nodes.drop tail.length = nodes :=
          fun tail h => (List.prefix_iff_eq_append.1 h)
        rw [List.flatMap_cons, ih]
        split
        · simp [Commented.nodes]
        · have := htail _ (tailOf_isFront node nodes)
          simp [Commented.nodes, this]

lemma split_nodes (onGap : Bool) (nodes : List Node) :
    (Commented.split onGap nodes).flatMap Commented.nodes = nodes :=
  splitAfter_nodes onGap [] 0 nodes

/-- What may stand behind the node of a group. -/
def Commented.TailFits (group : Commented) : Prop :=
  match group.node with
  | some (.constantDef _ _ _ _ _) => group.tail.length ≤ 1
  | some (.importNames _ _ _ _) => group.tail.length ≤ 1
  | some (.identifier _ _ _) => True
  | _ => group.tail = []

lemma tailFits_tailOf (head : List Node) (node : Node) (nodes : List Node) :
    Commented.TailFits ⟨head, some node, Commented.tailOf node nodes⟩ := by
  cases nodes with
  | nil => cases node <;> simp [Commented.TailFits, Commented.tailOf]
  | cons next rest =>
    unfold Commented.TailFits Commented.tailOf
    dsimp only
    cases node <;> dsimp only <;> split <;> simp

lemma tailFits_nil (head : List Node) (node : Option Node) :
    Commented.TailFits ⟨head, node, []⟩ := by
  unfold Commented.TailFits
  split <;> simp

lemma splitAfter_tailFits (onGap : Bool) (head : List Node) (skipped : Nat) (nodes : List Node) :
    ∀ group ∈ Commented.splitAfter onGap head skipped nodes, group.TailFits := by
  induction nodes generalizing head skipped with
  | nil =>
    rw [Commented.splitAfter]
    split
    · simp
    · exact List.forall_mem_singleton.2 (tailFits_nil head none)
  | cons node nodes ih =>
    cases skipped with
    | succ skipped => exact ih head skipped
    | zero =>
      rw [Commented.splitAfter]
      dsimp only
      split
      · split
        · exact List.forall_mem_cons.2 ⟨tailFits_nil _ none, ih [] 0⟩
        · exact ih _ 0
      · refine List.forall_mem_cons.2 ⟨?_, ih [] _⟩
        split
        · exact tailFits_nil head (some node)
        · exact tailFits_tailOf head node nodes

lemma split_tailFits (onGap : Bool) (nodes : List Node) :
    ∀ group ∈ Commented.split onGap nodes, group.TailFits :=
  splitAfter_tailFits onGap [] 0 nodes

lemma gather_tailFits {group : Commented} (h : group.TailFits) :
    ∀ g ∈ Imports.gather group, g.TailFits := by
  intro g hg
  unfold Imports.gather at hg
  split at hg
  · obtain ⟨n, -, rfl⟩ := List.mem_map.1 hg
    exact tailFits_nil [] (some n)
  · obtain ⟨n, -, rfl⟩ := List.mem_map.1 hg
    exact tailFits_nil [] (some n)
  · rw [List.mem_singleton.1 hg]
    exact h
  · exact split_tailFits false _ g hg
  · cases hg

end Groups

section Sorting

def CommentedName.Has (head tail : List Node) (name : CommentedName) : Prop :=
  head ⊆ name.head ∧ tail ⊆ name.tail

lemma mem_mergeName (name : CommentedName) (items : List CommentedName) :
    ∃ item ∈ Imports.mergeName name items, item.Has name.head name.tail := by
  induction items with
  | nil => exact ⟨name, List.mem_cons_self, List.Subset.refl _, List.Subset.refl _⟩
  | cons first items ih =>
    rw [Imports.mergeName]
    split
    · exact ⟨_, List.mem_cons_self, List.subset_append_right _ _, List.subset_append_right _ _⟩
    · obtain ⟨item, hitem, hhas⟩ := ih
      exact ⟨item, List.mem_cons_of_mem _ hitem, hhas⟩

lemma mergeName_has (name : CommentedName) {items : List CommentedName} {head tail : List Node}
    (h : ∃ item ∈ items, item.Has head tail) :
    ∃ item ∈ Imports.mergeName name items, item.Has head tail := by
  induction items with
  | nil => simp at h
  | cons first items ih =>
    obtain ⟨item, hitem, hhas⟩ := h
    rw [Imports.mergeName]
    rcases List.mem_cons.1 hitem with rfl | hitem
    · split
      · exact ⟨_, List.mem_cons_self, List.Subset.trans hhas.1 (List.subset_append_left _ _),
          List.Subset.trans hhas.2 (List.subset_append_left _ _)⟩
      · exact ⟨item, List.mem_cons_self, hhas⟩
    · split
      · exact ⟨item, List.mem_cons_of_mem _ hitem, hhas⟩
      · obtain ⟨item, hitem, hhas⟩ := ih ⟨item, hitem, hhas⟩
        exact ⟨item, List.mem_cons_of_mem _ hitem, hhas⟩

lemma mergeNames_has {names items : List CommentedName} {head tail : List Node}
    (h : (∃ name ∈ names, name.head = head ∧ name.tail = tail) ∨ ∃ item ∈ items, item.Has head tail) :
    ∃ item ∈ names.foldl (fun items name => Imports.mergeName name items) items,
      item.Has head tail := by
  induction names generalizing items with
  | nil => simpa using h
  | cons name names ih =>
    rw [List.foldl_cons]
    refine ih ?_
    rcases h with ⟨own, hown, rfl, rfl⟩ | h
    · rcases List.mem_cons.1 hown with rfl | hown
      · exact .inr (mem_mergeName own items)
      · exact .inl ⟨own, hown, rfl, rfl⟩
    · exact .inr (mergeName_has name h)

lemma sortedNames_has {nodes : List Node} {names : List CommentedName}
    (h : Imports.sortedNames nodes = .ok names) {n : Node} (hn : n ∈ nodes)
    (hc : n.isComment = true) : ∃ name ∈ names, n ∈ name.head ∨ n ∈ name.tail := by
  have hsound : ∀ g ∈ Commented.split false nodes,
      g.Sound (fun n => n.isComment = true) fun _ => True :=
    split_sound false (fun _ _ h => h) fun _ _ _ => trivial
  rw [← split_nodes false nodes] at hn
  obtain ⟨g, hg, hn⟩ := List.mem_flatMap.1 hn
  obtain ⟨found, hfound, rfl⟩ := sortedNames_eq h
  cases hnode : g.node with
  | none =>
    have hhead : n ∈ g.head := by
      simpa [Commented.nodes, hnode, ((hsound g hg).nonempty hnode).2] using hn
    have hrest : n ∈ (Commented.split false nodes).flatMap fun group =>
        if group.node.isNone then group.head else [] :=
      List.mem_flatMap.2 ⟨g, hg, by rw [hnode]; exact hhead⟩
    refine ⟨⟨_, [], []⟩, List.mem_append_right _ ?_, .inl hrest⟩
    rw [if_neg (by simpa using List.ne_nil_of_mem hrest)]
    exact List.mem_singleton_self _
  | some node =>
    have haround : n ∈ g.head ∨ n ∈ g.tail := by
      have hne : n ≠ node := by
        rintro rfl
        rw [((hsound g hg).node n hnode).2] at hc
        cases hc
      simpa [Commented.nodes, hnode, hne] using hn
    obtain ⟨y, hy, heq⟩ := mem_mapM hfound hg
    rw [Imports.nameOf, hnode] at heq
    cases node with
    | identifier start name stop =>
      obtain rfl := Except.ok.inj heq
      have hmem : (⟨g.head, name.text, g.tail⟩ : CommentedName) ∈ found.filterMap id :=
        List.mem_filterMap.2 ⟨_, hy, rfl⟩
      obtain ⟨item, hitem, hhas⟩ : ∃ item ∈ (found.filterMap id).foldl _ [],
          CommentedName.Has g.head g.tail item :=
        mergeNames_has (.inl ⟨_, hmem, rfl, rfl⟩)
      refine ⟨item, List.mem_append_left _ (List.mem_mergeSort.2 hitem), ?_⟩
      exact haround.imp (fun h => hhas.1 h) fun h => hhas.2 h
    | _ => cases heq

/-- Merged imports have the comments, the names and the text of the comment behind them. -/
def Imports.Merged.Has (head names : List Node) (tail : Text) (item : Imports.Merged) : Prop :=
  head ⊆ item.head ∧ names ⊆ item.names ∧ Imports.tailText item.tail = tail

lemma mem_mergeInto (head : List Node) (clause : ImportClause) (tail : Option Node)
    (items : List Imports.Merged) :
    ∃ item ∈ Imports.mergeInto head clause tail items,
      item.Has head clause.names (Imports.tailText tail) := by
  induction items with
  | nil => exact ⟨_, List.mem_cons_self, List.Subset.refl _, List.Subset.refl _, rfl⟩
  | cons first items ih =>
    rw [Imports.mergeInto]
    split
    · next hsame =>
      rw [Bool.and_eq_true, decide_eq_true_eq, decide_eq_true_eq] at hsame
      exact ⟨_, List.mem_cons_self, List.subset_append_right _ _, List.subset_append_right _ _,
        hsame.2⟩
    · obtain ⟨item, hitem, hhas⟩ := ih
      exact ⟨item, List.mem_cons_of_mem _ hitem, hhas⟩

lemma mergeInto_has (own : List Node) (clause : ImportClause) (behind : Option Node)
    {items : List Imports.Merged} {head names : List Node} {tail : Text}
    (h : ∃ item ∈ items, item.Has head names tail) :
    ∃ item ∈ Imports.mergeInto own clause behind items, item.Has head names tail := by
  induction items with
  | nil => simp at h
  | cons first items ih =>
    obtain ⟨item, hitem, hhas⟩ := h
    rw [Imports.mergeInto]
    rcases List.mem_cons.1 hitem with rfl | hitem
    · split
      · exact ⟨_, List.mem_cons_self, List.Subset.trans hhas.1 (List.subset_append_left _ _),
          List.Subset.trans hhas.2.1 (List.subset_append_left _ _), hhas.2.2⟩
      · exact ⟨item, List.mem_cons_self, hhas⟩
    · split
      · exact ⟨item, List.mem_cons_of_mem _ hitem, hhas⟩
      · obtain ⟨item, hitem, hhas⟩ := ih ⟨item, hitem, hhas⟩
        exact ⟨item, List.mem_cons_of_mem _ hitem, hhas⟩

lemma mergeAll_has {groups : List CommentedImport} {g : CommentedImport} (hg : g ∈ groups)
    {clause : ImportClause} (hc : g.clause = some clause) :
    ∃ item ∈ Imports.mergeAll groups,
      item.Has g.head clause.names (Imports.tailText g.tail.head?) := by
  unfold Imports.mergeAll
  suffices ∀ items : List Imports.Merged,
      (g ∈ groups ∨ ∃ item ∈ items, item.Has g.head clause.names (Imports.tailText g.tail.head?)) →
      ∃ item ∈ groups.foldl _ items, item.Has g.head clause.names (Imports.tailText g.tail.head?)
    from this [] (.inl hg)
  clear hg
  intro items h
  induction groups generalizing items with
  | nil => simpa using h
  | cons first groups ih =>
    rw [List.foldl_cons]
    refine ih _ ?_
    rcases h with h | h
    · rcases List.mem_cons.1 h with rfl | h
      · rw [hc]
        exact .inr (mem_mergeInto _ _ _ _)
      · exact .inl h
    · split
      · exact .inr h
      · exact .inr (mergeInto_has _ _ _ h)

lemma sortedEntries_has {groups : List CommentedImport} {entries : List ImportEntry}
    (h : Imports.sortedEntries groups = .ok entries) {item : Imports.Merged}
    (hitem : item ∈ Imports.mergeAll groups) : ∃ entry ∈ entries, Imports.entryOf item = .ok entry := by
  obtain ⟨ranked, sorted, hranked, hsorted, rfl⟩ := sortedEntries_eq h
  obtain ⟨r, hr, heq⟩ := mem_mapM hranked hitem
  obtain ⟨entry, hentry, hentryOf⟩ := mem_mapM hsorted (List.mem_mergeSort.2 hr)
  exact ⟨entry, List.mem_append_left _ hentry, (rank_eq heq).2 ▸ hentryOf⟩

lemma sortedEntries_leftovers {groups : List CommentedImport} {entries : List ImportEntry}
    (h : Imports.sortedEntries groups = .ok entries) {n : Node}
    (hn : n ∈ Imports.leftovers groups) : ∃ entry ∈ entries, n ∈ entry.head := by
  obtain ⟨ranked, sorted, -, -, rfl⟩ := sortedEntries_eq h
  rw [if_neg (by simpa using List.ne_nil_of_mem hn)]
  exact ⟨_, List.mem_append_right _ (List.mem_singleton_self _), hn⟩

/-- The comment is one of an import: in front of it, among its names or right behind it. -/
def CommentedImport.Holds (g : CommentedImport) (n : Node) : Prop :=
  n ∈ g.head ∨ ∃ clause ∈ g.clause, n ∈ clause.names ∨ g.tail.head? = some n

def ImportEntry.comments (entry : ImportEntry) : List Node :=
  entry.head ++ (entry.names.flatMap fun name => name.head ++ name.tail) ++ entry.tail.toList

lemma commentText_ne_nil {n : Node} (h : Parser.IsCommentNode n) : n.commentText ≠ [] :=
  (lexeme?_isFront (isCommentText_of_node h).1).2

lemma tailText_some (n : Node) : Imports.tailText (some n) = n.commentText := by
  cases n <;> rfl

lemma exists_tail {n : Node} (hn : Parser.IsCommentNode n) {tail : Option Node}
    (h : Imports.tailText tail = n.commentText) : ∃ m ∈ tail, m.commentText = n.commentText := by
  cases tail with
  | none => exact absurd h.symm (commentText_ne_nil hn)
  | some m => exact ⟨m, rfl, (tailText_some m).symm.trans h⟩

lemma sortedEntries_hold {groups : List CommentedImport} {entries : List ImportEntry}
    (h : Imports.sortedEntries groups = .ok entries) {g : CommentedImport} (hg : g ∈ groups)
    {n : Node} (hn : g.Holds n) (hc : Parser.IsCommentNode n) :
    ∃ entry ∈ entries, ∃ m ∈ entry.comments, m.commentText = n.commentText := by
  cases hclause : g.clause with
  | none =>
    have hleft : n ∈ Imports.leftovers groups := by
      refine List.mem_flatMap.2 ⟨g, hg, ?_⟩
      rw [hclause]
      exact hn.resolve_right (by simp [hclause])
    obtain ⟨entry, hentry, hmem⟩ := sortedEntries_leftovers h hleft
    exact ⟨entry, hentry, n, by simp [ImportEntry.comments, hmem], rfl⟩
  | some clause =>
    obtain ⟨item, hitem, hhead, hnames, htail⟩ := mergeAll_has hg hclause
    obtain ⟨entry, hentry, heq⟩ := sortedEntries_has h hitem
    obtain ⟨names, hsorted, rfl⟩ := entryOf_eq heq
    refine ⟨_, hentry, ?_⟩
    rcases hn with hn | ⟨own, hown, hn | hn⟩
    · exact ⟨n, by simp [ImportEntry.comments, hhead hn], rfl⟩
    · obtain rfl := Option.some.inj (hclause.symm.trans hown)
      obtain ⟨start, source, rfl, -⟩ := hc
      obtain ⟨name, hname, haround⟩ := sortedNames_has hsorted (hnames hn) rfl
      refine ⟨_, ?_, rfl⟩
      simp only [ImportEntry.comments, List.mem_append, List.mem_flatMap]
      exact .inl (.inr ⟨name, hname, haround⟩)
    · rw [hn, tailText_some] at htail
      obtain ⟨m, hm, htext⟩ := exists_tail hc htail
      exact ⟨m, by simp [ImportEntry.comments, Option.mem_def.1 hm], htext⟩

end Sorting

section Resolution

/-- Does a node among the names of an import without a path not stay there? Names go to the import
that provides them, and comments are dropped. -/
def Imports.leaves (providers : Imports.Providers) : Node → Bool
  | .identifier _ name _ => (providers.lookup name.namespaceText).join.isSome
  | node => node.isComment

lemma addName_ne_nil (path : Text) (name : Node) (found : List (Text × List Node)) :
    Imports.addName path name found ≠ [] := by
  cases found with
  | nil => simp [Imports.addName]
  | cons entry found =>
    rw [Imports.addName]
    split <;> simp

lemma resolveNames_eq {providers : Imports.Providers} {names others others' : List Node}
    {found found' : List (Text × List Node)}
    (h : Imports.resolveNames providers names found others = .ok (found', others')) :
    others' = others ++ names.filter (fun n => !Imports.leaves providers n) ∧
      (found' = [] → found = [] ∧ ∀ n ∈ names, Imports.leaves providers n = true → n.isComment = true) := by
  induction names generalizing found others with
  | nil =>
    obtain ⟨rfl, rfl⟩ := Prod.mk.inj (Except.ok.inj h)
    simp
  | cons node names ih =>
    cases node with
    | comment start source =>
      obtain ⟨hothers, hfound⟩ := ih h
      refine ⟨hothers, fun hnil => ⟨(hfound hnil).1, ?_⟩⟩
      exact List.forall_mem_cons.2 ⟨fun _ => rfl, (hfound hnil).2⟩
    | identifier start name stop =>
      rw [Imports.resolveNames] at h
      split at h
      · next path hlookup =>
        obtain ⟨hothers, hfound⟩ := ih h
        have hleaves : Imports.leaves providers (.identifier start name stop) = true := by
          rw [Imports.leaves, hlookup]
          rfl
        refine ⟨by simp [hothers, hleaves], fun hnil => ?_⟩
        exact absurd (hfound hnil).1 (addName_ne_nil _ _ _)
      · next hlookup =>
        obtain ⟨hothers, hfound⟩ := ih h
        have hleaves : Imports.leaves providers (.identifier start name stop) = false := by
          rw [Imports.leaves]
          cases hprovider : providers.lookup name.namespaceText with
          | none => rfl
          | some provider =>
            cases provider with
            | none => rfl
            | some path => exact absurd hprovider (hlookup path)
        refine ⟨by simp [hothers, hleaves], fun hnil => ⟨(hfound hnil).1, ?_⟩⟩
        refine List.forall_mem_cons.2 ⟨fun htrue => ?_, (hfound hnil).2⟩
        exact absurd (hleaves.symm.trans htrue) Bool.false_ne_true
    | _ => cases h

lemma resolve_holds {providers : Imports.Providers} {g : CommentedImport} {clause : ImportClause}
    (hc : g.clause = some clause) (hp : clause.path.isEmpty = true)
    {result : List CommentedImport × List (Nat × Text)}
    (h : Imports.resolve providers g = .ok result) {n : Node} :
    (n ∈ g.head → clause.names.all Node.isComment = false → ∃ r ∈ result.1, r.Holds n) ∧
      (g.tail.head? = some n → clause.names.all (Imports.leaves providers) = false →
        ∃ r ∈ result.1, r.Holds n) := by
  rw [Imports.resolve, hc] at h
  dsimp only at h
  rw [hp, Bool.not_true, if_neg Bool.false_ne_true] at h
  obtain ⟨found, hr, h⟩ := of_bind_ok h
  obtain ⟨found, others⟩ := found
  obtain ⟨hothers, hfound⟩ := resolveNames_eq hr
  dsimp only at h
  split at h
  · next hempty =>
    -- no name stays, so the first import that got names takes the comments in front
    rw [List.isEmpty_iff.1 hempty, List.nil_append] at hothers
    obtain rfl := Except.ok.inj h
    have hall : ∀ m ∈ clause.names, Imports.leaves providers m = true := by
      simpa using List.filter_eq_nil_iff.1 hothers.symm
    refine ⟨fun hn hnames => ?_, fun _ hnames => ?_⟩
    · cases found with
      | nil =>
        have hcomments := List.all_eq_true.2 fun m hm => (hfound rfl).2 m hm (hall m hm)
        rw [hcomments] at hnames
        cases hnames
      | cons first found =>
        exact ⟨_, List.mem_cons_self, .inl (List.mem_append_right _ hn)⟩
    · rw [List.all_eq_true.2 hall] at hnames
      cases hnames
  · obtain rfl := Except.ok.inj h
    have hlast := List.mem_append_right (found.map fun entry =>
        (⟨[], some { clause with path := entry.1, names := entry.2 }, []⟩ : CommentedImport))
      (List.mem_singleton_self (⟨g.head, some { clause with names := others }, g.tail⟩ : CommentedImport))
    exact ⟨fun hn _ => ⟨_, hlast, .inl hn⟩, fun hn _ => ⟨_, hlast, .inr ⟨_, rfl, .inr hn⟩⟩⟩

/-- The comments at an import without a path that have no place in the import block: those among its
names, the one behind it if none of its names stays, and those in front of it if it has no names. -/
def Commented.looseComments (providers : Imports.Providers) (group : Commented) : List Text :=
  match group.node with
  | some (.importNames _ path names _) =>
    if path.isEmpty then
      commentsIn names ++
        (if names.all (Imports.leaves providers) then commentsIn group.tail else []) ++
        if names.all Node.isComment then commentsIn group.head else []
    else []
  | _ => []

lemma exists_comment {nodes : List Node} (h : ∀ n ∈ nodes, Parser.IsCommentNode n ∨ n.comments = [])
    {s : Text} (hs : s ∈ commentsIn nodes) :
    ∃ n ∈ nodes, Parser.IsCommentNode n ∧ n.commentText = Text.strip s := by
  obtain ⟨n, hn, hs⟩ := mem_commentsIn.1 hs
  rcases h n hn with hc | hnil
  · refine ⟨n, hn, hc, ?_⟩
    obtain ⟨start, source, rfl, -⟩ := hc
    rw [comments_comment, List.mem_singleton] at hs
    rw [hs]
    rfl
  · rw [hnil] at hs
    cases hs

lemma name_comments {n : Node} (h : Parser.IsImportName n) :
    Parser.IsCommentNode n ∨ n.comments = [] := by
  obtain hcomment | ⟨start, own, stop, rfl, -⟩ := Vocabulary.lexical.name_cases h
  · exact .inl hcomment
  · exact .inr rfl

lemma resolve_of_path {providers : Imports.Providers} {g : CommentedImport}
    (h : ∀ clause ∈ g.clause, clause.path.isEmpty = false) :
    Imports.resolve providers g = .ok ([g], []) := by
  unfold Imports.resolve
  cases hc : g.clause with
  | none => rfl
  | some clause => simp [h clause hc]

/-- The comments of a gathered import stand in the import block unless they are loose. -/
lemma gathered_kept {groups : List Commented} {imports : Imports.Consolidated}
    (steps : Consolidation groups imports) {g : Commented} (hg : g ∈ groups.flatMap Imports.gather)
    (hsound : g.Sound Parser.IsCommentNode Vocabulary.lexical.Clause) (hfits : g.TailFits)
    {s : Text} (hs : s ∈ commentsIn g.nodes) :
    s ∈ g.looseComments steps.providers ∨
      ∃ entry ∈ steps.entries, ∃ m ∈ entry.comments, m.commentText = Text.strip s := by
  obtain ⟨c, hc, heq⟩ := mem_mapM steps.gathers hg
  obtain ⟨result, hresult, hresolve⟩ := mem_mapM steps.resolves hc
  have hkept {n : Node} (hn : Parser.IsCommentNode n) (hholds : ∃ r ∈ result.1, r.Holds n) :
      ∃ entry ∈ steps.entries, ∃ m ∈ entry.comments, m.commentText = n.commentText := by
    obtain ⟨r, hr, hholds⟩ := hholds
    exact sortedEntries_hold steps.sorts (List.mem_flatMap.2 ⟨result, hresult, hr⟩) hholds hn
  have hhead (h : s ∈ commentsIn g.head) := exists_comment (fun n hn => .inl (hsound.head n hn)) h
  rw [Commented.nodes, commentsIn_append, commentsIn_append, List.mem_append, List.mem_append] at hs
  cases hnode : g.node with
  | none =>
    rw [Imports.clauseOf, hnode] at heq
    obtain rfl := Except.ok.inj heq
    rw [resolve_of_path (by simp)] at hresolve
    obtain rfl := Except.ok.inj hresolve
    rw [hnode, (hsound.nonempty hnode).2] at hs
    obtain ⟨n, hn, hcomment, htext⟩ := hhead ((hs.resolve_right nofun).resolve_right nofun)
    exact .inr (htext ▸ hkept hcomment ⟨_, List.mem_singleton_self _, .inl hn⟩)
  | some node =>
    obtain ⟨start, path, names, stop, rfl, -, hnames⟩ := (hsound.node node hnode).1.cases
    rw [Imports.clauseOf, hnode] at heq
    obtain rfl := Except.ok.inj heq
    rw [hnode, Option.toList_some, commentsIn_singleton, Parser.comments_importNames] at hs
    have hbehind (h : s ∈ commentsIn g.tail) :
        ∃ n, g.tail.head? = some n ∧ Parser.IsCommentNode n ∧ n.commentText = Text.strip s := by
      obtain ⟨n, hn, hcomment⟩ := exists_comment (fun n hn => .inl (hsound.tail n hn)) h
      refine ⟨n, ?_, hcomment⟩
      rw [Commented.TailFits, hnode] at hfits
      match g.tail, hfits, hn with
      | [only], _, hn => rw [List.mem_singleton.1 hn]; rfl
    cases hp : path.isEmpty with
    | false =>
      rw [resolve_of_path (by simpa using hp)] at hresolve
      obtain rfl := Except.ok.inj hresolve
      refine .inr ?_
      rcases hs with (hs | hs) | hs
      · obtain ⟨n, hn, hcomment, htext⟩ := hhead hs
        exact htext ▸ hkept hcomment ⟨_, List.mem_singleton_self _, .inl hn⟩
      · obtain ⟨n, hn, hcomment, htext⟩ := exists_comment (fun n hn => name_comments (hnames n hn)) hs
        exact htext ▸ hkept hcomment ⟨_, List.mem_singleton_self _, .inr ⟨_, rfl, .inl hn⟩⟩
      · obtain ⟨n, hn, hcomment, htext⟩ := hbehind hs
        exact htext ▸ hkept hcomment ⟨_, List.mem_singleton_self _, .inr ⟨_, rfl, .inr hn⟩⟩
    | true =>
      have hloose : g.looseComments steps.providers =
          commentsIn names ++
            (if names.all (Imports.leaves steps.providers) then commentsIn g.tail else []) ++
            if names.all Node.isComment then commentsIn g.head else [] := by
        rw [Commented.looseComments, hnode]
        exact if_pos hp
      rw [hloose, List.mem_append, List.mem_append]
      rcases hs with (hs | hs) | hs
      · cases hall : names.all Node.isComment with
        | true => exact .inl (.inr hs)
        | false =>
          obtain ⟨n, hn, hcomment, htext⟩ := hhead hs
          exact .inr (htext ▸ hkept hcomment ((resolve_holds rfl hp hresolve).1 hn hall))
      · exact .inl (.inl (.inl hs))
      · cases hall : names.all (Imports.leaves steps.providers) with
        | true => exact .inl (.inl (.inr hs))
        | false =>
          obtain ⟨n, hn, hcomment, htext⟩ := hbehind hs
          exact .inr (htext ▸ hkept hcomment ((resolve_holds rfl hp hresolve).2 hn hall))

end Resolution

section Blocks

lemma pieceComments_commentLines (comments : List Text) :
    pieceComments (commentLinePieces comments) = comments := by
  induction comments with
  | nil => rfl
  | cons comment comments ih =>
    rw [commentLinePieces, List.flatMap_cons, ← commentLinePieces, pieceComments_append, ih]
    rfl

lemma pieceComments_optional (comment : Option Text) :
    pieceComments (comment.map commentPiece).toList = comment.toList := by
  cases comment <;> rfl

/-- The comments on a line among the names of an import. -/
def NameLine.comments : NameLine → List Text
  | .comment text => [text]
  | .name _ tail => tail.toList

lemma pieceComments_nameLine (line : NameLine) : pieceComments line.pieces = line.comments := by
  cases line with
  | comment text => rfl
  | name text tail => simp [NameLine.pieces, NameLine.comments, pieceComments_optional]

lemma pieceComments_names (names : List NameLine) :
    pieceComments (namesPieces names) = names.flatMap NameLine.comments := by
  unfold namesPieces
  rw [pieceComments_inParens]
  split
  · next hbare =>
    rw [List.all_eq_true] at hbare
    have hnone : names.flatMap NameLine.comments = [] := by
      refine List.flatMap_eq_nil_iff.2 fun line hline => ?_
      have hline := hbare line hline
      cases line with
      | comment text => cases hline
      | name text tail => simpa [NameLine.isBare, NameLine.comments] using hline
    simp [hnone]
  · simp [pieceComments_flatMap, pieceComments_nameLine]

def ImportPlan.comments (entry : ImportPlan) : List Text :=
  entry.head ++ entry.names.flatMap NameLine.comments ++ entry.tail.toList

lemma pieceComments_entry (previous : Option Text) (entry : ImportPlan) :
    pieceComments (entry.pieces previous) = entry.comments := by
  have hgap (b : Bool) : pieceComments (if b then [linePiece] else []) = [] := by cases b <;> rfl
  have hpath : pieceComments (if entry.path.isEmpty then [] else [(.string, entry.path)]) = [] := by
    split <;> rfl
  have hnames : pieceComments (if entry.names.isEmpty then [] else namesPieces entry.names) =
      entry.names.flatMap NameLine.comments := by
    split
    · next hempty => rw [List.isEmpty_iff.1 hempty]; rfl
    · exact pieceComments_names entry.names
  rw [ImportPlan.pieces, ImportPlan.linePieces, ImportPlan.comments]
  simp only [pieceComments_append, hgap, hpath, hnames, pieceComments_commentLines,
    pieceComments_optional, pieceComments_line, pieceComments_nil, List.nil_append, List.append_nil,
    List.append_assoc]

lemma pieceComments_imports (leftovers : List Text) (previous : Option Text)
    (entries : List ImportPlan) :
    pieceComments (importsPieces leftovers previous entries) =
      entries.flatMap ImportPlan.comments ++ leftovers := by
  induction entries generalizing previous with
  | nil =>
    rw [importsPieces]
    split
    · next hempty => rw [List.isEmpty_iff.1 hempty]; rfl
    · simp [pieceComments_commentLines]
  | cons entry entries ih =>
    rw [importsPieces, pieceComments_append, pieceComments_entry, ih, List.flatMap_cons,
      List.append_assoc]

lemma lines_comments {name : CommentedName} (h : name.Sound .lexical) {n : Node}
    (hn : n ∈ name.head ∨ n ∈ name.tail) :
    n.commentText ∈ name.lines.flatMap NameLine.comments := by
  have hcomments (nodes : List Node) :
      (nodes.map fun comment => NameLine.comment comment.commentText).flatMap NameLine.comments =
        nodes.map Node.commentText := by
    rw [List.flatMap_map, List.map_eq_flatMap]
    rfl
  unfold CommentedName.lines
  rw [List.flatMap_append, hcomments, List.mem_append]
  refine hn.imp List.mem_map_of_mem fun hn => ?_
  have hne : ¬ name.name.isEmpty = true := fun hempty =>
    List.not_mem_nil ((h.alone lexical_named (List.isEmpty_iff.1 hempty)).2 ▸ hn)
  rw [if_neg hne, List.flatMap_cons, hcomments, NameLine.comments]
  cases htail : name.tail with
  | nil => exact absurd (htail ▸ hn) List.not_mem_nil
  | cons first rest => exact List.mem_map_of_mem (htail ▸ hn)

lemma plan_comments {entry : ImportEntry} (h : ∀ name ∈ entry.names, name.Sound .lexical) {n : Node}
    (hn : n ∈ entry.comments) : n.commentText ∈ entry.plan.comments := by
  simp only [ImportEntry.comments, List.mem_append, List.mem_flatMap, Option.mem_toList] at hn
  simp only [ImportPlan.comments, ImportEntry.plan, List.mem_append]
  rcases hn with (hn | ⟨name, hname, hn⟩) | hn
  · exact .inl (.inl (List.mem_map_of_mem hn))
  · refine .inl (.inr ?_)
    rw [List.flatMap_assoc]
    exact List.mem_flatMap.2 ⟨name, hname, lines_comments (h name hname) hn⟩
  · exact .inr (by simp [Option.mem_def.1 hn])

lemma block_keeps {block : ImportBlock} {sorted : List ImportEntry} {leftovers : List Node}
    (h : block.Sound .lexical sorted leftovers) (gap : Bool) {entry : ImportEntry}
    (hentry : entry ∈ block.entries) {n : Node} (hn : n ∈ entry.comments) :
    n.commentText ∈ pieceComments (block.plan gap).pieces := by
  rw [blockPlan_eq h, GroupPlan.pieces, MemberPlan.pieces]
  simp only [pieceComments_append, pieceComments_keyword, pieceComments_symbol, pieceComments_line,
    pieceComments_imports, List.mem_append]
  rw [h.entries.entries, List.mem_append] at hentry
  refine .inr (.inl ?_)
  rcases hentry with hentry | hentry
  · refine .inl (List.mem_flatMap.2 ⟨entry.plan, List.mem_map_of_mem hentry, ?_⟩)
    exact plan_comments (h.entries.sorted entry hentry).names hn
  · split at hentry
    · cases hentry
    · rw [List.mem_singleton.1 hentry] at hn
      exact .inr (List.mem_map_of_mem (by simpa [ImportEntry.comments] using hn))

end Blocks

section Files

lemma exists_groupPlan (imports : Imports.Consolidated) (index : Nat)
    (previous : Option (Option Node)) {groups : List Commented} {group : Commented}
    (hg : group ∈ groups) (h : group.node.any File.isImporting = false) :
    ∃ gap, group.plan gap ∈ groupPlans imports index previous groups := by
  induction groups generalizing index previous with
  | nil => cases hg
  | cons first groups ih =>
    rw [groupPlans]
    dsimp only
    rcases List.mem_cons.1 hg with rfl | hg
    · rw [h]
      split
      · next himporting => cases himporting
      · split
        · exact ⟨_, List.mem_cons_self⟩
        · exact ⟨_, List.mem_cons_of_mem _ List.mem_cons_self⟩
    · split
      · exact ih _ _ hg
      · obtain ⟨gap, hmem⟩ := ih (index + 1) (some first.node) hg
        refine ⟨gap, ?_⟩
        split
        · exact List.mem_cons_of_mem _ hmem
        · refine List.mem_cons_of_mem _ ?_
          split
          · exact hmem
          · exact List.mem_cons_of_mem _ hmem

lemma exists_blockPlan (imports : Imports.Consolidated) (index : Nat)
    (previous : Option (Option Node)) {groups : List Commented} {offset : Nat}
    (h : imports.index = some (index + offset)) (hlt : offset < groups.length) :
    ∃ gap, imports.block.plan gap ∈ groupPlans imports index previous groups := by
  induction groups generalizing index previous offset with
  | nil => exact absurd hlt (Nat.not_lt_zero _)
  | cons group groups ih =>
    rw [groupPlans]
    dsimp only
    cases offset with
    | zero =>
      have hhere : (imports.index == some index) = true := by simp [h]
      rw [hhere, Bool.not_true, Bool.and_false, if_neg Bool.false_ne_true, if_neg Bool.false_ne_true]
      exact ⟨_, List.mem_cons_self⟩
    | succ offset =>
      have hnext : imports.index = some (index + 1 + offset) := by
        rw [h, Nat.add_assoc, Nat.add_comm 1]
      have hlt' : offset < groups.length := Nat.lt_of_succ_lt_succ hlt
      have hhere : (imports.index == some index) = false := by simp [h]
      rw [hhere]
      split
      · exact ih _ _ hnext hlt'
      · obtain ⟨gap, hmem⟩ := ih (index + 1) (some group.node) hnext hlt'
        exact ⟨gap, List.mem_cons_of_mem _ hmem⟩

/-- A group from which an import can come. -/
def Commented.Importing (group : Commented) : Prop :=
  match group.node with
  | some (.importList _ _ _) => True
  | some (.functionDef _ _ _ _) => True
  | some (.typeDef _ _ _ _ _) => True
  | _ => False

lemma place_some {groups : List Commented} {entries : List ImportEntry}
    (h : Imports.listHeads groups ≠ [] ∨ entries ≠ [] ∧ ∃ g ∈ groups, g.Importing) :
    ∃ index, Imports.place groups entries = some index ∧ index < groups.length := by
  have hlt {p : Commented → Bool} {index : Nat} (h : groups.findIdx? p = some index) :
      index < groups.length := (List.findIdx?_eq_some_iff_findIdx_eq.1 h).1
  have hnone {p : Commented → Bool} (h : groups.findIdx? p = none) : ∀ g ∈ groups, p g = false :=
    List.findIdx?_eq_none_iff.1 h
  unfold Imports.place
  dsimp only
  split
  · next index definition hfirst hdefinition =>
    exact ⟨_, rfl, Nat.lt_of_le_of_lt (Nat.min_le_right _ _) (hlt hdefinition)⟩
  · next index hfirst hdefinition =>
    refine ⟨index, rfl, ?_⟩
    rcases Option.or_eq_some_iff.1 (Option.orElse_eq_or.symm.trans hfirst) with hfirst | ⟨-, hfirst⟩
    · exact hlt hfirst
    · exact hlt hfirst
  · next hfirst =>
    obtain ⟨hlist, -⟩ := Option.or_eq_none_iff.1 (Option.orElse_eq_or.symm.trans hfirst)
    have hlist := hnone hlist
    have hheads : Imports.listHeads groups = [] := by
      refine List.flatMap_eq_nil_iff.2 fun g hg => ?_
      have hg := hlist g hg
      split
      · next hnode => rw [hnode] at hg; cases hg
      · rfl
    obtain ⟨hentries, g, hg, himporting⟩ := h.resolve_left (absurd hheads)
    rw [if_neg (by simpa using hentries)]
    cases hdefinition : groups.findIdx? fun group => group.node.any Node.isDefinition with
    | some index => exact ⟨index, rfl, hlt hdefinition⟩
    | none =>
      have hdefinition := hnone hdefinition g hg
      have hlist := hlist g hg
      unfold Commented.Importing at himporting
      split at himporting
      · next hnode => rw [hnode] at hlist; cases hlist
      · next hnode => rw [hnode] at hdefinition; cases hdefinition
      · next hnode => rw [hnode] at hdefinition; cases hdefinition
      · exact himporting.elim

lemma mem_filePieces {plans : List GroupPlan} {plan : GroupPlan} (hplan : plan ∈ plans) {text : Text}
    (h : text ∈ pieceComments plan.pieces) : text ∈ pieceComments (filePieces plans) := by
  rw [filePieces, pieceComments_flatMap]
  exact List.mem_flatMap.2 ⟨plan, hplan, h⟩

lemma head_kept {gap : Bool} {head : List Node} {member : MemberPlan} {n : Node} (h : n ∈ head) :
    n.commentText ∈ pieceComments (GroupPlan.pieces ⟨gap, head.map Node.commentText, member⟩) := by
  simp only [GroupPlan.pieces, pieceComments_append, pieceComments_commentLines, List.mem_append]
  exact .inl (.inr (List.mem_map_of_mem h))

lemma member_kept {gap : Bool} {head : List Text} {member : MemberPlan} {text : Text}
    (h : text ∈ pieceComments member.pieces) :
    text ∈ pieceComments (GroupPlan.pieces ⟨gap, head, member⟩) := by
  simp only [GroupPlan.pieces, pieceComments_append, List.mem_append]
  exact .inr h

lemma gather_comments {group : Commented} {node : Node} (hnode : group.node = some node)
    {s : Text} (hs : s ∈ commentsIn node.importsBelow) :
    group.Importing ∧ ∃ g ∈ Imports.gather group, s ∈ commentsIn g.nodes := by
  have hbare {nodes : List Node} (hs : s ∈ commentsIn nodes) :
      ∃ g ∈ nodes.map fun node => ({ node := some node } : Commented), s ∈ commentsIn g.nodes := by
    obtain ⟨n, hn, hs⟩ := mem_commentsIn.1 hs
    exact ⟨_, List.mem_map_of_mem hn, mem_commentsIn.2 ⟨n, by simp [Commented.nodes], hs⟩⟩
  unfold Commented.Importing Imports.gather
  rw [hnode]
  cases node with
  | functionDef head params results body => exact ⟨trivial, hbare hs⟩
  | typeDef start isPublic name fields stop => exact ⟨trivial, hbare hs⟩
  | importList start imports stop =>
    refine ⟨trivial, ?_⟩
    rw [Node.importsBelow, ← split_nodes false imports] at hs
    obtain ⟨n, hn, hs⟩ := mem_commentsIn.1 hs
    obtain ⟨g, hg, hn⟩ := List.mem_flatMap.1 hn
    exact ⟨g, hg, mem_commentsIn.2 ⟨n, hn, hs⟩⟩
  | _ => cases hs

/-- The paths that provide the namespaces used in the imports of a file. -/
def Imports.providersOf (groups : List Commented) : Imports.Providers :=
  let found : Except LayoutFault Imports.Providers := do
    let gathered ← (groups.flatMap Imports.gather).mapM Imports.clauseOf
    gathered.foldlM (fun providers group => Imports.provideAll providers group.clause) []
  match found with
  | .ok providers => providers
  | .error _ => []

lemma providersOf_eq {groups : List Commented} {imports : Imports.Consolidated}
    (steps : Consolidation groups imports) : Imports.providersOf groups = steps.providers := by
  rw [Imports.providersOf, steps.gathers, bind_ok, steps.provides]

/-- The comments of a file that have no place in its import block. -/
def looseComments (nodes : List Node) : List Text :=
  let groups := Commented.split true nodes
  (groups.flatMap Imports.gather).flatMap (Commented.looseComments (Imports.providersOf groups))

section Group

variable {nodes : List Node} {imports : Imports.Consolidated} {sorted : List ImportEntry}
  {leftovers : List Node} {group : Commented} {s : Text}

/-- The comment is loose or a piece of the plan. -/
def Kept (nodes : List Node) (s : Text) : Prop :=
  s ∈ looseComments nodes ∨ Text.strip s ∈ pieceComments (filePieces (filePlan nodes))

lemma plan_mem (hc : Imports.consolidate (Commented.split true nodes) = .ok imports)
    (hgroup : group ∈ Commented.split true nodes) (h : group.node.any File.isImporting = false) :
    ∃ gap, group.plan gap ∈ filePlan nodes := by
  rw [filePlan, hc]
  exact exists_groupPlan imports 0 none hgroup h

lemma blockPlan_mem (hc : Imports.consolidate (Commented.split true nodes) = .ok imports)
    (steps : Consolidation (Commented.split true nodes) imports)
    (h : Imports.listHeads (Commented.split true nodes) ≠ [] ∨
      steps.entries ≠ [] ∧ ∃ g ∈ Commented.split true nodes, g.Importing) :
    ∃ gap, imports.block.plan gap ∈ filePlan nodes := by
  have hempty : imports.block.isEmpty = false := by
    rw [steps.block, ImportBlock.isEmpty]
    rcases h with h | ⟨h, -⟩ <;> simp [h]
  obtain ⟨index, hplace, hlt⟩ := place_some h
  rw [filePlan, hc]
  refine exists_blockPlan imports 0 none ?_ hlt
  rw [steps.index, hempty, if_neg Bool.false_ne_true, hplace, Nat.zero_add]

/-- The comments of the imports below a member of a file are written with the import block. -/
lemma importsBelow_kept (h : IsFile nodes)
    (hc : Imports.consolidate (Commented.split true nodes) = .ok imports)
    (steps : Consolidation (Commented.split true nodes) imports)
    (hb : imports.block.Sound .lexical sorted leftovers) (hgroup : group ∈ Commented.split true nodes)
    {node : Node} (hnode : group.node = some node) (hs : s ∈ commentsIn node.importsBelow) :
    Kept nodes s := by
  obtain ⟨himporting, g, hg, hs⟩ := gather_comments hnode hs
  have hmem : g ∈ (Commented.split true nodes).flatMap Imports.gather :=
    List.mem_flatMap.2 ⟨group, hgroup, hg⟩
  have hread := h.split_read true group hgroup
  have hsound : g.Sound Parser.IsCommentNode Vocabulary.lexical.Clause :=
    gather_sound ⟨hread.head, hread.tail,
      fun n hn => ⟨lexical_imports (hread.node n hn).1, (hread.node n hn).2⟩, hread.nonempty⟩ g hg
  have hfits := gather_tailFits (split_tailFits true nodes group hgroup) g hg
  rcases gathered_kept steps hmem hsound hfits hs with hloose | ⟨entry, hentry, m, hm, htext⟩
  · refine .inl ?_
    rw [looseComments, providersOf_eq steps]
    exact List.mem_flatMap.2 ⟨g, hmem, hloose⟩
  · obtain ⟨gap, hplan⟩ := blockPlan_mem hc steps
      (.inr ⟨List.ne_nil_of_mem hentry, group, hgroup, himporting⟩)
    rw [← show imports.block.entries = steps.entries from congrArg _ steps.block] at hentry
    exact .inr (mem_filePieces hplan (htext ▸ block_keeps hb gap hentry hm))

lemma head_kept_of_read (hc : Imports.consolidate (Commented.split true nodes) = .ok imports)
    (steps : Consolidation (Commented.split true nodes) imports)
    (hgroup : group ∈ Commented.split true nodes) (hread : group.Read)
    (hs : s ∈ commentsIn group.head) : Kept nodes s := by
  obtain ⟨n, hn, -, htext⟩ := exists_comment (fun n hn => .inl (hread.head n hn)) hs
  cases himporting : group.node.any File.isImporting with
  | false =>
    obtain ⟨gap, hplan⟩ := plan_mem hc hgroup himporting
    exact .inr (mem_filePieces hplan (htext ▸ head_kept hn))
  | true =>
    have hheads : n ∈ Imports.listHeads (Commented.split true nodes) := by
      refine List.mem_flatMap.2 ⟨group, hgroup, ?_⟩
      cases hnode : group.node with
      | none => rw [hnode] at himporting; cases himporting
      | some node =>
        have hdef := (hread.node node hnode).1
        rw [hnode] at himporting
        cases node with
        | importList start imports stop => exact hn
        | importNames => exact hdef.elim
        | _ => cases himporting
    obtain ⟨gap, hplan⟩ := blockPlan_mem hc steps (.inl (List.ne_nil_of_mem hheads))
    have hmem : n ∈ imports.block.head := steps.block ▸ hheads
    exact .inr (mem_filePieces hplan (htext ▸ head_kept hmem))

end Group

lemma IsFile.comments_kept {nodes : List Node} (h : IsFile nodes) :
    ∀ s ∈ commentsIn nodes, Kept nodes s := by
  obtain ⟨imports, hc, steps, sorted, hb⟩ := h.consolidate_ok
  intro s hs
  rw [← split_nodes true nodes] at hs
  obtain ⟨n, hn, hs⟩ := mem_commentsIn.1 hs
  obtain ⟨group, hgroup, hn⟩ := List.mem_flatMap.1 hn
  have hread := h.split_read true group hgroup
  have hfits := split_tailFits true nodes group hgroup
  rw [Commented.nodes, List.mem_append, List.mem_append, Option.mem_toList] at hn
  rcases hn with (hn | hnode) | hn
  · exact head_kept_of_read hc steps hgroup hread (mem_commentsIn.2 ⟨n, hn, hs⟩)
  · obtain ⟨hdef, -⟩ := hread.node n hnode
    rcases definition_keeps hdef group.tail s hs with hkept | hbelow
    · have himporting : group.node.any File.isImporting = false := by
        rw [Option.mem_def.1 hnode]
        cases n with
        | importList => cases hkept
        | importNames => exact hdef.elim
        | _ => rfl
      obtain ⟨gap, hplan⟩ := plan_mem hc hgroup himporting
      rw [Commented.plan, Option.mem_def.1 hnode] at hplan
      exact .inr (mem_filePieces hplan (member_kept hkept))
    · exact importsBelow_kept h hc steps hb hgroup hnode hbelow
  · -- only a constant has a comment behind it
    obtain ⟨n, hn, -, htext⟩ :=
      exists_comment (fun n hn => .inl (hread.tail n hn)) (mem_commentsIn.2 ⟨n, hn, hs⟩)
    cases hnode : group.node with
    | none => exact absurd ((hread.nonempty hnode).2 ▸ hn) List.not_mem_nil
    | some node =>
      obtain ⟨hdef, -⟩ := hread.node node hnode
      rw [Commented.TailFits, hnode] at hfits
      cases node with
      | constantDef start isPublic name value stop =>
        obtain ⟨gap, hplan⟩ := plan_mem hc hgroup (by rw [hnode]; rfl)
        have hfirst : group.tail.head? = some n := by
          obtain ⟨only, hone⟩ := List.length_eq_one_iff.1
            (Nat.le_antisymm hfits (List.length_pos_of_mem hn))
          rw [hone] at hn ⊢
          rw [List.mem_singleton.1 hn]
          rfl
        rw [Commented.plan, hnode] at hplan
        refine .inr (mem_filePieces hplan (member_kept ?_))
        simp only [memberPlan, Option.map_some, Option.getD_some, MemberPlan.pieces,
          pieceComments_append, hfirst, List.mem_append]
        exact .inl (.inr (htext ▸ List.mem_singleton_self _))
      | importNames => exact hdef.elim
      | identifier => exact hdef.elim
      | _ => exact absurd (hfits ▸ hn) List.not_mem_nil

lemma exists_commentToken {tokens : List Token} {text : Text}
    (h : text ∈ pieceComments (piecesOf tokens)) : ∃ t ∈ tokens, t.kind = .comment ∧ t.text = text := by
  rw [pieceComments, piecesOf, List.filterMap_map] at h
  obtain ⟨t, ht, htext⟩ := List.mem_filterMap.1 h
  by_cases hkind : t.kind = .comment
  · refine ⟨t, (List.mem_filter.1 ht).1, hkind, ?_⟩
    simpa [hkind] using htext
  · simp [hkind] at htext

/-- Every comment of a text is a comment of the formatted text, without the blanks around it, unless
it is loose. -/
theorem format_keeps_comments {path : Text} {source : Source} {text : Text}
    (h : format path source = .ok text) :
    ∃ tokens nodes tokens', readTokens path source = .ok tokens ∧ parse tokens = .ok nodes ∧
      readTokens path (.text text) = .ok tokens' ∧
      ∀ t ∈ tokens, t.kind = .comment →
        t.text ∈ looseComments nodes ∨
          ∃ t' ∈ tokens', t'.kind = .comment ∧ t'.text = Text.strip t.text := by
  obtain ⟨tokens, nodes, htokens, hparse⟩ := parse_of_format h
  obtain ⟨original, horiginal⟩ := tokenize_of_readTokens htokens
  obtain ⟨hfile, hcomments⟩ := isFile_of_parse horiginal hparse
  obtain rfl := Except.ok.inj ((format_of_parse htokens hparse).symm.trans h)
  obtain ⟨tokens', htokens', hpieces⟩ :=
    tokenize_of_scan (planText_scan hfile.plan_wf) (.startOf path)
  refine ⟨tokens, nodes, tokens', htokens, hparse, readTokens_of_tokenize htokens', ?_⟩
  intro t ht hkind
  have hmem : t.text ∈ commentsIn nodes := by
    rw [hcomments]
    exact List.mem_flatMap.2 ⟨t, ht, by simp [Token.commentText, hkind]⟩
  refine (hfile.comments_kept t.text hmem).imp_right fun hkept => ?_
  exact exists_commentToken (hpieces ▸ hkept)

/-- Comments in front of an import, behind it and in a function. -/
theorem format_keeps_comments_around :
    let source : Text := "import \x7b\n// a  \n\"p/q\" (x) // b\n\x7d\nf() \x7b\n//c \n\x7d\n"
    let text : Text := "import \x7b\n\t// a\n\t\"p/q\" (x) // b\n\x7d\n\nf() () \x7b\n\t//c\n\x7d\n"
    format [] (.text source) = .ok text ∧
      ∃ tokens nodes tokens', readTokens [] (.text source) = .ok tokens ∧
        parse tokens = .ok nodes ∧ readTokens [] (.text text) = .ok tokens' ∧
        ∀ t ∈ tokens, t.kind = .comment →
          t.text ∈ looseComments nodes ∨
            ∃ t' ∈ tokens', t'.kind = .comment ∧ t'.text = Text.strip t.text := by
  intro source text
  have hformat : format [] (.text source) = .ok text := ok_of_toOption (by decide +kernel)
  exact ⟨hformat, format_keeps_comments hformat⟩

/-- A comment among the names of an import without a path is lost. -/
theorem format_loses_comment_among_names :
    let source : Text := "import \x7b\n(\n// c\na::b)\n\x7d\n"
    let text : Text := "import \x7b\n\t(a::b)\n\x7d\n"
    format [] (.text source) = .ok text ∧
      (readTokens [] (.text source)).map (List.flatMap Token.commentText) = .ok ["// c"] ∧
      (readTokens [] (.text text)).map (List.flatMap Token.commentText) = .ok [] := by
  intro source text
  exact ⟨ok_of_toOption (by decide +kernel), ok_of_toOption (by decide +kernel),
    ok_of_toOption (by decide +kernel)⟩

end Files

end DpLang
