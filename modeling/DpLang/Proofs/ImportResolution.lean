import DpLang.Proofs.KeptComments

/-!
# The way of imports into the import block

The imports of a file are gathered from where they stand, the names among them that have no path get
the one that provides their namespace, and imports of the same path are merged. Each step is described
by what the imports name behind it.
-/

namespace DpLang

section Places

def ImportClause.node (c : ImportClause) : Node := .importNames c.start c.path c.names c.stop

/-- The node is one of the statements, or one in the blocks below them. -/
inductive StandsIn (n : Node) : List Node → Prop where
  | here {body : List Node} (h : n ∈ body) : StandsIn n body
  | block {body inner : List Node} {start stop : Position} (h : .block start inner stop ∈ body)
      (below : StandsIn n inner) : StandsIn n body
  | forLoop {body inner : List Node} {test : Option Node} {start bodyStart stop : Position}
      (h : .forLoop start test bodyStart inner stop ∈ body) (below : StandsIn n inner) :
      StandsIn n body
  | thenBody {body inner other : List Node} {test : Node} {start thenStart thenStop stop : Position}
      (h : .ifElse start test thenStart inner thenStop other stop ∈ body)
      (below : StandsIn n inner) : StandsIn n body
  | elseBody {body inner other : List Node} {test : Node} {start thenStart thenStop stop : Position}
      (h : .ifElse start test thenStart other thenStop inner stop ∈ body)
      (below : StandsIn n inner) : StandsIn n body

/-- The import stands in an import list, in the body of a function or in a type. -/
inductive IsImportIn (nodes : List Node) (c : ImportClause) : Prop where
  | listed {imports : List Node} {start stop : Position} (h : .importList start imports stop ∈ nodes)
      (hc : c.node ∈ imports)
  | inFunction {head : FunctionHead} {params results body : List Node}
      (h : .functionDef head params results body ∈ nodes) (hc : StandsIn c.node body)
  | inType {start stop : Position} {isPublic : Bool} {name : Text} {fields : List Node}
      (h : .typeDef start isPublic name fields stop ∈ nodes) (hc : c.node ∈ fields)

lemma StandsIn.mono {n : Node} {body more : List Node} (h : StandsIn n body) (hs : body ⊆ more) :
    StandsIn n more := by
  cases h with
  | here h => exact .here (hs h)
  | block h below => exact .block (hs h) below
  | forLoop h below => exact .forLoop (hs h) below
  | thenBody h below => exact .thenBody (hs h) below
  | elseBody h below => exact .elseBody (hs h) below

def ImportClause.isIdle (c : ImportClause) : Bool := c.path.isEmpty && c.names.isEmpty

lemma ImportClause.isIdle_eq_false {c : ImportClause} :
    c.isIdle = false ↔ c.path ≠ [] ∨ c.names ≠ [] := by
  rw [ImportClause.isIdle, Bool.and_eq_false_iff, List.isEmpty_eq_false_iff, List.isEmpty_eq_false_iff]

lemma nestedImports_clause (c : ImportClause) :
    c.node.nestedImports = if c.isIdle then [] else [c.node] := rfl

mutual
lemma standsIn_of_nestedImports {m : Node} :
    ∀ n : Node, m ∈ n.nestedImports → StandsIn m [n] ∧ ∃ c : ImportClause, m = c.node ∧ c.isIdle = false := by
  intro n hm
  cases n with
  | importNames start path names stop =>
    rw [Node.nestedImports] at hm
    split at hm
    · cases hm
    · next hidle =>
      rw [List.mem_singleton.1 hm]
      exact ⟨.here (List.mem_singleton_self _), ⟨start, path, names, stop⟩, rfl,
        Bool.eq_false_iff.2 hidle⟩
  | block start body stop =>
    rw [Node.nestedImports] at hm
    obtain ⟨hbelow, hclause⟩ := standsIn_of_nestedImportsOf body hm
    exact ⟨.block (List.mem_singleton_self _) hbelow, hclause⟩
  | forLoop start test bodyStart body stop =>
    rw [Node.nestedImports] at hm
    obtain ⟨hbelow, hclause⟩ := standsIn_of_nestedImportsOf body hm
    exact ⟨.forLoop (List.mem_singleton_self _) hbelow, hclause⟩
  | ifElse start test thenStart thenBody thenStop elseBody stop =>
    rw [Node.nestedImports] at hm
    rcases List.mem_append.1 hm with hm | hm
    · obtain ⟨hbelow, hclause⟩ := standsIn_of_nestedImportsOf thenBody hm
      exact ⟨.thenBody (List.mem_singleton_self _) hbelow, hclause⟩
    · obtain ⟨hbelow, hclause⟩ := standsIn_of_nestedImportsOf elseBody hm
      exact ⟨.elseBody (List.mem_singleton_self _) hbelow, hclause⟩
  | _ => simp [Node.nestedImports] at hm

lemma standsIn_of_nestedImportsOf {m : Node} :
    ∀ body : List Node, m ∈ Node.nestedImportsOf body →
      StandsIn m body ∧ ∃ c : ImportClause, m = c.node ∧ c.isIdle = false := by
  intro body hm
  cases body with
  | nil => cases hm
  | cons n body =>
    rw [Node.nestedImportsOf] at hm
    rcases List.mem_append.1 hm with hm | hm
    · obtain ⟨hstands, hclause⟩ := standsIn_of_nestedImports n hm
      exact ⟨hstands.mono (by simp), hclause⟩
    · obtain ⟨hstands, hclause⟩ := standsIn_of_nestedImportsOf body hm
      exact ⟨hstands.mono (List.subset_cons_self _ _), hclause⟩
end

lemma StandsIn.mem_nested {c : ImportClause} {body : List Node} (h : StandsIn c.node body)
    (hidle : c.isIdle = false) : c.node ∈ Node.nestedImportsOf body := by
  rw [mem_nestedImportsOf]
  induction h with
  | here h =>
    refine ⟨_, h, ?_⟩
    rw [nestedImports_clause, hidle]
    exact List.mem_singleton_self _
  | block h _ ih =>
    refine ⟨_, h, ?_⟩
    rwa [Node.nestedImports, mem_nestedImportsOf]
  | forLoop h _ ih =>
    refine ⟨_, h, ?_⟩
    rwa [Node.nestedImports, mem_nestedImportsOf]
  | thenBody h _ ih =>
    refine ⟨_, h, ?_⟩
    rw [Node.nestedImports, List.mem_append]
    exact .inl (mem_nestedImportsOf.2 ih)
  | elseBody h _ ih =>
    refine ⟨_, h, ?_⟩
    rw [Node.nestedImports, List.mem_append]
    exact .inr (mem_nestedImportsOf.2 ih)

variable {nodes : List Node}

lemma mem_of_split {onGap : Bool} {group : Commented} (h : group ∈ Commented.split onGap nodes) {n : Node}
    (hn : group.node = some n) : n ∈ nodes := by
  rw [← split_nodes onGap nodes]
  exact List.mem_flatMap.2 ⟨group, h, by simp [Commented.nodes, hn]⟩

lemma exists_group (onGap : Bool) {n : Node} (h : n ∈ nodes) (hc : n.isComment = false) :
    ∃ group ∈ Commented.split onGap nodes, group.node = some n := by
  rw [← split_nodes onGap nodes] at h
  obtain ⟨group, hgroup, hn⟩ := List.mem_flatMap.1 h
  have hsound : group.Sound (fun n => n.isComment = true) fun _ => True :=
    split_sound onGap (fun _ _ h => h) (fun _ _ _ => trivial) group hgroup
  refine ⟨group, hgroup, ?_⟩
  rw [Commented.nodes, List.mem_append, List.mem_append, Option.mem_toList] at hn
  rcases hn with (hn | hn) | hn
  · exact absurd (hsound.head n hn) (by simp [hc])
  · exact hn
  · exact absurd (hsound.tail n hn) (by simp [hc])

lemma clause_of_clauseOf {g : Commented} {r : CommentedImport} {c : ImportClause}
    (h : Imports.clauseOf g = .ok r) (hc : r.clause = some c) : g.node = some c.node := by
  unfold Imports.clauseOf at h
  split at h
  · obtain rfl := Except.ok.inj h
    cases hc
  · next start path names stop hnode =>
    obtain rfl := Except.ok.inj h
    obtain rfl := Option.some.inj hc
    exact hnode
  · cases h

lemma isImportIn_of_gathered (hfile : nodes.all Node.isFileMember = true)
    {gathered : List CommentedImport}
    (hgathered : ((Commented.split true nodes).flatMap Imports.gather).mapM Imports.clauseOf = .ok gathered)
    {g : CommentedImport} (hg : g ∈ gathered) {c : ImportClause} (hc : g.clause = some c) :
    IsImportIn nodes c := by
  obtain ⟨inner, hinner, hclause⟩ := mapM_of_mem hgathered hg
  obtain ⟨group, hgroup, hinner⟩ := List.mem_flatMap.1 hinner
  have hnode := clause_of_clauseOf hclause hc
  unfold Imports.gather at hinner
  split at hinner
  · next head params results body hdef =>
    obtain ⟨m, hm, rfl⟩ := List.mem_map.1 hinner
    obtain rfl := Option.some.inj hnode
    exact .inFunction (mem_of_split hgroup hdef) (standsIn_of_nestedImportsOf body hm).1
  · next start isPublic name fields stop hdef =>
    obtain ⟨m, hm, rfl⟩ := List.mem_map.1 hinner
    obtain rfl := Option.some.inj hnode
    obtain ⟨f, hf, hm⟩ := List.mem_flatMap.1 hm
    obtain ⟨hf, himport⟩ := List.mem_filter.1 hf
    refine .inType (mem_of_split hgroup hdef) ?_
    cases f with
    | importNames start path names stop =>
      rw [Node.nestedImports] at hm
      split at hm
      · cases hm
      · rwa [List.mem_singleton.1 hm]
    | _ => cases himport
  · next start path names stop hdef =>
    have := List.all_eq_true.1 hfile _ (mem_of_split hgroup hdef)
    cases this
  · next start imports stop hdef => exact .listed (mem_of_split hgroup hdef) (mem_of_split hinner hnode)
  · cases hinner

variable {imports : Imports.Consolidated} (steps : Consolidation (Commented.split true nodes) imports)

/-- Every import of the file that imports anything is gathered. -/
lemma gathered_of_isImportIn {c : ImportClause} (hc : IsImportIn nodes c) (hidle : c.isIdle = false) :
    ∃ g ∈ steps.gathered, g.clause = some c := by
  obtain ⟨group, hgroup, inner, hinner, hnode⟩ : ∃ group ∈ Commented.split true nodes,
      ∃ inner ∈ Imports.gather group, inner.node = some c.node := by
    cases hc with
    | listed h hc =>
      obtain ⟨group, hgroup, hnode⟩ := exists_group true h rfl
      obtain ⟨inner, hinner, hclause⟩ := exists_group false hc rfl
      exact ⟨group, hgroup, inner, by rw [Imports.gather, hnode]; exact hinner, hclause⟩
    | inFunction h hc =>
      obtain ⟨group, hgroup, hnode⟩ := exists_group true h rfl
      refine ⟨group, hgroup, { node := some c.node }, ?_, rfl⟩
      rw [Imports.gather, hnode]
      exact List.mem_map_of_mem (hc.mem_nested hidle)
    | inType h hc =>
      obtain ⟨group, hgroup, hnode⟩ := exists_group true h rfl
      refine ⟨group, hgroup, { node := some c.node }, ?_, rfl⟩
      rw [Imports.gather, hnode]
      refine List.mem_map_of_mem (List.mem_flatMap.2 ⟨c.node, List.mem_filter.2 ⟨hc, rfl⟩, ?_⟩)
      rw [nestedImports_clause, hidle]
      exact List.mem_singleton_self _
  obtain ⟨g, hg, hclause⟩ := mem_mapM steps.gathers (List.mem_flatMap.2 ⟨group, hgroup, hinner⟩)
  refine ⟨g, hg, ?_⟩
  rw [Imports.clauseOf, hnode] at hclause
  obtain rfl := Except.ok.inj hclause
  rfl

end Places

section Providers

/-- The path is in quotes and has no backslash in it, and the text between the quotes provides the
namespace. -/
def ImportPath.Provides (path name : Text) : Prop :=
  ∃ inner, path = '"' :: inner ++ ['"'] ∧ '\\' ∉ inner ∧ name ∈ ImportPath.namespaces inner

lemma takeWhile_ne_eq {t : Text} {c : Char} (h : c ∉ t) : t.takeWhile (· != c) = t := by
  rw [List.takeWhile_eq_self_iff]
  intro d hd
  rw [bne_iff_ne]
  exact fun he => h (he ▸ hd)

lemma unquote_eq {path : Text} (h : isImportPath path = true) (hne : path.isEmpty = false) :
    ∃ inner, path = '"' :: inner ++ ['"'] ∧
      ImportPath.unquote path = .ok (inner.takeWhile (· != '\\'), !inner.contains '\\') := by
  rw [isImportPath, hne, Bool.false_or] at h
  have hunquote : ImportPath.unquote path =
      .ok (path.tail.dropLast.takeWhile (· != '\\'), !path.tail.dropLast.contains '\\') := if_pos h
  refine ⟨path.tail.dropLast, ?_, hunquote⟩
  simp only [Bool.and_eq_true, decide_eq_true_eq, beq_iff_eq] at h
  obtain ⟨⟨hlength, hhead⟩, hlast⟩ := h
  cases path with
  | nil => cases hne
  | cons c rest =>
    obtain rfl := Option.some.inj hhead
    rcases List.eq_nil_or_concat' rest with rfl | ⟨inner, d, rfl⟩
    · simp at hlength
    · rw [← List.cons_append, List.getLast?_append_of_ne_nil] at hlast
      · obtain rfl := Option.some.inj hlast
        simp
      · simp

/-- What is recorded about a namespace: nothing if no path provides it, the path if only one does, and
that several do. -/
inductive Imports.Recorded (provides : Text → Prop) : Option (Option Text) → Prop where
  | nowhere (h : ∀ p, ¬ provides p) : Recorded provides none
  | only (p : Text) (h : ∀ q, provides q ↔ q = p) : Recorded provides (some (some p))
  | several {p q : Text} (h : p ≠ q) (hp : provides p) (hq : provides q) :
      Recorded provides (some none)

/-- The providers of all namespaces are recorded. -/
def Imports.Records (providers : Imports.Providers) (provides : Text → Text → Prop) : Prop :=
  ∀ name, Imports.Recorded (provides · name) (providers.lookup name)

lemma lookup_provide_self (path name : Text) (providers : Imports.Providers) :
    (Imports.provide path providers name).lookup name =
      some ((providers.lookup name).elim (some path) fun provider =>
        if provider = some path then provider else none) := by
  induction providers with
  | nil => simp [Imports.provide]
  | cons entry providers ih =>
    obtain ⟨own, provider⟩ := entry
    rw [Imports.provide]
    by_cases hown : own = name
    · subst hown
      simp
    · have hne : (name == own) = false := by simpa using Ne.symm hown
      rw [if_neg hown, List.lookup_cons, List.lookup_cons, hne]
      exact ih

lemma lookup_provide_other {path name other : Text} (h : other ≠ name) (providers : Imports.Providers) :
    (Imports.provide path providers name).lookup other = providers.lookup other := by
  have hne : (other == name) = false := by simpa using h
  induction providers with
  | nil => rw [Imports.provide, List.lookup_cons, hne]
  | cons entry providers ih =>
    obtain ⟨own, provider⟩ := entry
    rw [Imports.provide]
    split
    · next hown =>
      subst hown
      rw [List.lookup_cons, List.lookup_cons, hne]
    · rw [List.lookup_cons, List.lookup_cons, ih]

lemma Imports.Recorded.congr {P Q : Text → Prop} {record : Option (Option Text)}
    (h : Imports.Recorded P record) (hPQ : ∀ p, P p ↔ Q p) : Imports.Recorded Q record := by
  obtain rfl : P = Q := funext fun p => propext (hPQ p)
  exact h

lemma Imports.Recorded.provide {P : Text → Prop} {record : Option (Option Text)}
    (h : Imports.Recorded P record) (path : Text) :
    Imports.Recorded (fun p => P p ∨ p = path)
      (some (record.elim (some path) fun provider => if provider = some path then provider else none)) := by
  cases h with
  | nowhere h => exact .only path fun q => by simp [h q]
  | only p h =>
    rw [Option.elim_some]
    by_cases hp : p = path
    · subst hp
      rw [if_pos rfl]
      exact .only p fun q => by simp [h q]
    · rw [if_neg (by simpa using hp)]
      exact .several hp (.inl ((h p).2 rfl)) (.inr rfl)
  | several hne hp hq =>
    rw [Option.elim_some, if_neg (by simp)]
    exact .several hne (.inl hp) (.inl hq)

lemma Imports.Recorded.eq_some_iff {P : Text → Prop} {record : Option (Option Text)}
    (h : Imports.Recorded P record) {p : Text} : record = some (some p) ↔ ∀ q, P q ↔ q = p := by
  cases h with
  | nowhere h => exact ⟨by simp, fun hp => absurd ((hp p).2 rfl) (h p)⟩
  | only own h =>
    constructor
    · rintro ⟨⟩
      exact h
    · intro hp
      rw [(h p).1 ((hp p).2 rfl)]
  | several hne hp hq => exact ⟨by simp, fun h => absurd (((h _).1 hp).trans ((h _).1 hq).symm) hne⟩

lemma Imports.Recorded.ne_some_iff {P : Text → Prop} {record : Option (Option Text)}
    (h : Imports.Recorded P record) :
    (∀ p, record ≠ some (some p)) ↔ (∀ p, ¬ P p) ∨ ∃ p q, p ≠ q ∧ P p ∧ P q := by
  cases h with
  | nowhere h => simp [h]
  | only own h => simp [h]
  | several hne hp hq => exact iff_of_true (by simp) (.inr ⟨_, _, hne, hp, hq⟩)

variable {providers : Imports.Providers} {R : Text → Text → Prop}

lemma Imports.Records.congr {S : Text → Text → Prop} (h : Imports.Records providers R)
    (hRS : ∀ p name, R p name ↔ S p name) : Imports.Records providers S :=
  fun name => (h name).congr (hRS · name)

lemma Imports.Records.provide (h : Imports.Records providers R) (path name : Text) :
    Imports.Records (Imports.provide path providers name)
      fun p other => R p other ∨ p = path ∧ other = name := by
  intro other
  by_cases hother : other = name
  · subst hother
    rw [lookup_provide_self]
    exact ((h other).provide path).congr fun p => by simp
  · rw [lookup_provide_other hother]
    exact (h other).congr fun p => by simp [hother]

lemma Imports.Records.provideEach (h : Imports.Records providers R) (path : Text) (names : List Text) :
    Imports.Records (names.foldl (Imports.provide path) providers)
      fun p other => R p other ∨ p = path ∧ other ∈ names := by
  induction names generalizing providers R with
  | nil => exact h.congr fun p name => by simp
  | cons name names ih =>
    refine (ih (h.provide path name)).congr fun p other => ?_
    rw [List.mem_cons]
    tauto

lemma Imports.Records.provideAll (h : Imports.Records providers R) {clause : Option ImportClause}
    (hpath : ∀ c ∈ clause, isImportPath c.path = true) {next : Imports.Providers}
    (hnext : Imports.provideAll providers clause = .ok next) :
    Imports.Records next fun p name =>
      R p name ∨ ∃ c ∈ clause, c.path = p ∧ ImportPath.Provides p name := by
  unfold Imports.provideAll at hnext
  cases clause with
  | none =>
    obtain rfl := Except.ok.inj hnext
    exact h.congr fun p name => by simp
  | some c =>
    dsimp only at hnext
    split at hnext
    · next hempty =>
      obtain rfl := Except.ok.inj hnext
      refine h.congr fun p name => ?_
      have hnone : ¬ ∃ c' ∈ some c, c'.path = p ∧ ImportPath.Provides p name := by
        rintro ⟨c', hc', rfl, inner, hpath, -⟩
        obtain rfl := Option.some.inj hc'
        rw [hpath] at hempty
        cases hempty
      rw [or_iff_left hnone]
    · next hne =>
      obtain ⟨inner, hinner, hunquote⟩ := unquote_eq (hpath c rfl) (Bool.eq_false_iff.2 hne)
      rw [hunquote, bind_ok] at hnext
      have hprovides (name : Text) : ImportPath.Provides c.path name ↔
          '\\' ∉ inner ∧ name ∈ ImportPath.namespaces inner := by
        refine ⟨fun ⟨own, hown, h⟩ => ?_, fun h => ⟨inner, hinner, h⟩⟩
        obtain rfl : own = inner := by simpa using hown.symm.trans hinner
        exact h
      have hclause (p name : Text) : (∃ c' ∈ some c, c'.path = p ∧ ImportPath.Provides p name) ↔
          p = c.path ∧ '\\' ∉ inner ∧ name ∈ ImportPath.namespaces inner := by
        rw [← hprovides]
        refine ⟨fun ⟨c', hc', hp, h⟩ => ?_, fun ⟨hp, h⟩ => ⟨c, rfl, hp.symm, hp ▸ h⟩⟩
        obtain rfl := Option.some.inj hc'
        exact ⟨hp.symm, hp ▸ h⟩
      by_cases hslash : '\\' ∈ inner
      · -- a path with a backslash provides nothing
        rw [if_neg (by simp [hslash])] at hnext
        obtain rfl := Except.ok.inj hnext
        refine h.congr fun p name => ?_
        rw [hclause]
        tauto
      · rw [if_pos (by simp [hslash]), takeWhile_ne_eq hslash] at hnext
        obtain rfl := Except.ok.inj hnext
        refine (h.provideEach c.path _).congr fun p name => ?_
        rw [hclause]
        tauto

lemma records_of_foldlM {gathered : List CommentedImport} (h : Imports.Records providers R)
    (hpaths : ∀ g ∈ gathered, ∀ c ∈ g.clause, isImportPath c.path = true) {final : Imports.Providers}
    (hfinal : gathered.foldlM (fun ps g => Imports.provideAll ps g.clause) providers = .ok final) :
    Imports.Records final fun p name =>
      R p name ∨ ∃ g ∈ gathered, ∃ c ∈ g.clause, c.path = p ∧ ImportPath.Provides p name := by
  induction gathered generalizing providers R with
  | nil =>
    obtain rfl := Except.ok.inj hfinal
    exact h.congr fun p name => by simp
  | cons g gathered ih =>
    rw [List.forall_mem_cons] at hpaths
    rw [List.foldlM_cons] at hfinal
    obtain ⟨next, hnext, hfinal⟩ := of_bind_ok hfinal
    refine (ih (h.provideAll hpaths.1 hnext) hpaths.2 hfinal).congr fun p name => ?_
    rw [List.exists_mem_cons_iff, or_assoc]

end Providers

section Resolution

/-- Some import has the path and names for which `Q` holds. -/
def HasImport (groups : List CommentedImport) (p : Text) (Q : List Node → Prop) : Prop :=
  ∃ g ∈ groups, ∃ c ∈ g.clause, c.path = p ∧ Q c.names

variable {providers : Imports.Providers} {p : Text} {Q : List Node → Prop}

/-- The name among the names of an import without a path that goes to the path `p`. -/
def GoesTo (providers : Imports.Providers) (p : Text) (Q : List Node → Prop) (names : List Node) : Prop :=
  ∃ start name stop, .identifier start name stop ∈ names ∧
    providers.lookup name.namespaceText = some (some p) ∧ Q [.identifier start [name.short] stop]

lemma exists_addName (hQ : ∀ xs ys, Q (xs ++ ys) ↔ Q xs ∨ Q ys) (path : Text) (name : Node)
    (found : List (Text × List Node)) :
    (∃ entry ∈ Imports.addName path name found, entry.1 = p ∧ Q entry.2) ↔
      (∃ entry ∈ found, entry.1 = p ∧ Q entry.2) ∨ path = p ∧ Q [name] := by
  induction found with
  | nil => simp [Imports.addName]
  | cons entry found ih =>
    obtain ⟨other, names⟩ := entry
    rw [Imports.addName]
    split
    · next hsame =>
      subst hsame
      simp only [List.exists_mem_cons_iff, hQ]
      rw [and_or_left, or_right_comm]
    · simp only [List.exists_mem_cons_iff, ih]
      rw [or_assoc]

lemma goesTo_cons (node : Node) (names : List Node) :
    GoesTo providers p Q (node :: names) ↔ GoesTo providers p Q [node] ∨ GoesTo providers p Q names := by
  simp only [GoesTo, List.mem_cons, List.not_mem_nil, or_false, or_and_right, exists_or]

lemma exists_resolveNames (hQ : ∀ xs ys, Q (xs ++ ys) ↔ Q xs ∨ Q ys) {names others others' : List Node}
    {found found' : List (Text × List Node)}
    (h : Imports.resolveNames providers names found others = .ok (found', others')) :
    (∃ entry ∈ found', entry.1 = p ∧ Q entry.2) ↔
      (∃ entry ∈ found, entry.1 = p ∧ Q entry.2) ∨ GoesTo providers p Q names := by
  induction names generalizing found others with
  | nil =>
    obtain ⟨rfl, rfl⟩ := Prod.mk.inj (Except.ok.inj h)
    simp [GoesTo]
  | cons node names ih =>
    rw [goesTo_cons]
    cases node with
    | comment start source =>
      have hnone : ¬ GoesTo providers p Q [.comment start source] := by simp [GoesTo]
      rw [ih h, or_iff_right hnone]
    | identifier start name stop =>
      rw [Imports.resolveNames] at h
      split at h
      · next path hlookup =>
        have hone : GoesTo providers p Q [.identifier start name stop] ↔
            path = p ∧ Q [.identifier start [name.short] stop] := by
          simp [GoesTo, hlookup]
        rw [ih h, exists_addName hQ, hone, or_assoc]
      · next hlookup =>
        have hnone : ¬ GoesTo providers p Q [.identifier start name stop] := by
          simpa [GoesTo] using fun h _ => hlookup p h
        rw [ih h, or_iff_right hnone]
    | _ => cases h

/-- The names of an import without a path that stay there. -/
def staying (providers : Imports.Providers) (names : List Node) : List Node :=
  names.filter fun n => !Imports.leaves providers n

/-- The import, with its names where they belong, has the path and names for which `Q` holds: its own
ones, or, if it has no path, one that goes to the path or those that stay. -/
def ImportClause.Yields (providers : Imports.Providers) (p : Text) (Q : List Node → Prop)
    (c : ImportClause) : Prop :=
  c.path ≠ [] ∧ c.path = p ∧ Q c.names ∨
    c.path = [] ∧ (GoesTo providers p Q c.names ∨
      p = [] ∧ staying providers c.names ≠ [] ∧ Q (staying providers c.names))

lemma hasImport_append (groups more : List CommentedImport) :
    HasImport (groups ++ more) p Q ↔ HasImport groups p Q ∨ HasImport more p Q := by
  simp only [HasImport, List.mem_append, or_and_right, exists_or]

lemma hasImport_addHead (head : List Node) (groups : List CommentedImport) :
    HasImport (Imports.addHead head groups) p Q ↔ HasImport groups p Q := by
  cases groups with
  | nil => rfl
  | cons first rest => simp only [HasImport, Imports.addHead, List.exists_mem_cons_iff]

lemma hasImport_singleton {head tail : List Node} {c : ImportClause} :
    HasImport [⟨head, some c, tail⟩] p Q ↔ c.path = p ∧ Q c.names := by
  simp [HasImport]

lemma hasImport_resolved (hQ : ∀ xs ys, Q (xs ++ ys) ↔ Q xs ∨ Q ys) {g : CommentedImport} {c : ImportClause}
    (hc : g.clause = some c) (hp : c.path = []) {result : List CommentedImport × List (Nat × Text)}
    (h : Imports.resolve providers g = .ok result) :
    HasImport result.1 p Q ↔ GoesTo providers p Q c.names ∨
      p = [] ∧ staying providers c.names ≠ [] ∧ Q (staying providers c.names) := by
  rw [Imports.resolve, hc] at h
  dsimp only at h
  rw [if_neg (by simp [hp])] at h
  obtain ⟨found, hr, h⟩ := of_bind_ok h
  obtain ⟨found, others⟩ := found
  obtain rfl : others = staying providers c.names := (resolveNames_eq hr).1
  have hfound : HasImport
      (found.map fun entry => ⟨[], some { c with path := entry.1, names := entry.2 }, []⟩) p Q ↔
      GoesTo providers p Q c.names := by
    have hnames := exists_resolveNames (p := p) hQ hr
    simpa [HasImport] using hnames
  dsimp only at h
  by_cases hnone : staying providers c.names = []
  · rw [if_pos (by simp [hnone])] at h
    obtain rfl := Except.ok.inj h
    rw [hasImport_addHead, hfound]
    simp [hnone]
  · rw [if_neg (by simpa using hnone)] at h
    obtain rfl := Except.ok.inj h
    rw [hasImport_append, hfound, hasImport_singleton, hp]
    simp [hnone, eq_comm]

lemma hasImport_resolve (hQ : ∀ xs ys, Q (xs ++ ys) ↔ Q xs ∨ Q ys) {g : CommentedImport}
    {result : List CommentedImport × List (Nat × Text)} (h : Imports.resolve providers g = .ok result) :
    HasImport result.1 p Q ↔ ∃ c ∈ g.clause, c.Yields providers p Q := by
  cases hc : g.clause with
  | none =>
    rw [resolve_of_path (by simp [hc])] at h
    obtain rfl := Except.ok.inj h
    simp [HasImport, hc]
  | some c =>
    by_cases hp : c.path = []
    · rw [hasImport_resolved hQ hc hp h]
      simp [ImportClause.Yields, hp]
    · rw [resolve_of_path (by simpa [hc] using hp)] at h
      obtain rfl := Except.ok.inj h
      simp [HasImport, hc, ImportClause.Yields, hp]

end Resolution

section Merging

variable {p : Text} {Q : List Node → Prop}

lemma exists_mergeInto (hQ : ∀ xs ys, Q (xs ++ ys) ↔ Q xs ∨ Q ys) (head : List Node) (c : ImportClause)
    (tail : Option Node) (items : List Imports.Merged) :
    (∃ item ∈ Imports.mergeInto head c tail items, item.path = p ∧ Q item.names) ↔
      (∃ item ∈ items, item.path = p ∧ Q item.names) ∨ c.path = p ∧ Q c.names := by
  induction items with
  | nil => simp [Imports.mergeInto]
  | cons item items ih =>
    rw [Imports.mergeInto]
    split
    · next hsame =>
      have hpath : item.path = c.path := by simp_all
      simp only [List.exists_mem_cons_iff, hQ, hpath]
      rw [and_or_left, or_right_comm]
    · simp only [List.exists_mem_cons_iff, ih]
      rw [or_assoc]

lemma exists_mergeAll (hQ : ∀ xs ys, Q (xs ++ ys) ↔ Q xs ∨ Q ys) (groups : List CommentedImport) :
    (∃ item ∈ Imports.mergeAll groups, item.path = p ∧ Q item.names) ↔ HasImport groups p Q := by
  unfold Imports.mergeAll
  suffices ∀ items : List Imports.Merged,
      (∃ item ∈ groups.foldl _ items, item.path = p ∧ Q item.names) ↔
        (∃ item ∈ items, item.path = p ∧ Q item.names) ∨ HasImport groups p Q by
    rw [this]
    simp
  intro items
  induction groups generalizing items with
  | nil => simp [HasImport]
  | cons g groups ih =>
    rw [List.foldl_cons, ih]
    cases hc : g.clause with
    | none => simp [HasImport, hc]
    | some c =>
      dsimp only
      rw [exists_mergeInto hQ]
      simp [HasImport, hc, or_assoc]

/-- What tells apart the entries of an import block: the path and the text of the comment behind. -/
def Imports.Merged.key (item : Imports.Merged) : Text × Text := (item.path, Imports.tailText item.tail)

lemma mergeInto_keys (head : List Node) (c : ImportClause) (tail : Option Node)
    (items : List Imports.Merged) :
    (Imports.mergeInto head c tail items).map Imports.Merged.key =
      if (c.path, Imports.tailText tail) ∈ items.map Imports.Merged.key then
        items.map Imports.Merged.key
      else items.map Imports.Merged.key ++ [(c.path, Imports.tailText tail)] := by
  induction items with
  | nil => rfl
  | cons item items ih =>
    rw [Imports.mergeInto]
    by_cases hsame : item.key = (c.path, Imports.tailText tail)
    · obtain ⟨hpath, htail⟩ := Prod.mk.inj hsame
      rw [if_pos (by simp [hpath, htail]), if_pos (by simp [hsame])]
      rfl
    · have hcond : ¬ (item.path = c.path && Imports.tailText item.tail = Imports.tailText tail) = true := by
        intro hboth
        rw [Bool.and_eq_true, decide_eq_true_eq, decide_eq_true_eq] at hboth
        exact hsame (Prod.ext hboth.1 hboth.2)
      rw [if_neg hcond, List.map_cons, List.map_cons, ih]
      by_cases hmem : (c.path, Imports.tailText tail) ∈ items.map Imports.Merged.key
      · rw [if_pos hmem, if_pos (List.mem_cons_of_mem _ hmem)]
      · have hmem' : (c.path, Imports.tailText tail) ∉ item.key :: items.map Imports.Merged.key :=
          fun h => (List.mem_cons.1 h).elim (Ne.symm hsame) hmem
        rw [if_neg hmem, if_neg hmem', List.cons_append]

lemma mergeAll_keys_nodup (groups : List CommentedImport) :
    ((Imports.mergeAll groups).map Imports.Merged.key).Nodup := by
  unfold Imports.mergeAll
  suffices ∀ items : List Imports.Merged, (items.map Imports.Merged.key).Nodup →
      ((groups.foldl _ items).map Imports.Merged.key).Nodup from this [] List.nodup_nil
  intro items hitems
  induction groups generalizing items with
  | nil => exact hitems
  | cons g groups ih =>
    rw [List.foldl_cons]
    refine ih _ ?_
    split
    · exact hitems
    · rw [mergeInto_keys]
      split_ifs with hmem
      · exact hitems
      · exact List.nodup_append.2 ⟨hitems, List.nodup_singleton _, by simpa using hmem⟩

def NamesText (n : Text) (names : List Node) : Prop :=
  ∃ start name stop, .identifier start name stop ∈ names ∧ QualifiedName.text name = n

lemma namesText_append (n : Text) (xs ys : List Node) :
    NamesText n (xs ++ ys) ↔ NamesText n xs ∨ NamesText n ys := by
  simp only [NamesText, List.mem_append, or_and_right, exists_or]

/-- The entry lists a name. Comments that belong to no name stand at an empty one. -/
def ImportEntry.Lists (entry : ImportEntry) (n : Text) : Prop :=
  n ≠ [] ∧ ∃ name ∈ entry.names, name.name = n

lemma exists_mergeName (n : Text) (name : CommentedName) (items : List CommentedName) :
    (∃ item ∈ Imports.mergeName name items, item.name = n) ↔
      (∃ item ∈ items, item.name = n) ∨ name.name = n := by
  induction items with
  | nil => simp [Imports.mergeName]
  | cons item items ih =>
    rw [Imports.mergeName]
    split
    · next hsame =>
      simp only [List.exists_mem_cons_iff, hsame]
      rw [or_right_comm, or_self]
    · simp only [List.exists_mem_cons_iff, ih]
      rw [or_assoc]

lemma exists_mergeNames (n : Text) (names items : List CommentedName) :
    (∃ item ∈ names.foldl (fun items name => Imports.mergeName name items) items, item.name = n) ↔
      (∃ item ∈ items, item.name = n) ∨ ∃ name ∈ names, name.name = n := by
  induction names generalizing items with
  | nil => simp
  | cons name names ih =>
    rw [List.foldl_cons, ih, exists_mergeName, List.exists_mem_cons_iff, or_assoc]

lemma exists_nameOf {nodes : List Node} {found : List (Option CommentedName)}
    (h : (Commented.split false nodes).mapM Imports.nameOf = .ok found) (n : Text) :
    (∃ name ∈ found.filterMap id, name.name = n) ↔ NamesText n nodes := by
  constructor
  · rintro ⟨name, hname, rfl⟩
    obtain ⟨o, ho, rfl⟩ := List.mem_filterMap.1 hname
    obtain ⟨g, hg, hnameOf⟩ := mapM_of_mem h ho
    unfold Imports.nameOf at hnameOf
    split at hnameOf
    · cases hnameOf
    · next start own stop hnode =>
      obtain rfl := Option.some.inj (Except.ok.inj hnameOf)
      exact ⟨start, own, stop, mem_of_split hg hnode, rfl⟩
    · cases hnameOf
  · rintro ⟨start, own, stop, hmem, rfl⟩
    obtain ⟨g, hg, hnode⟩ := exists_group false hmem rfl
    obtain ⟨o, ho, hnameOf⟩ := mem_mapM h hg
    rw [Imports.nameOf, hnode] at hnameOf
    obtain rfl := Except.ok.inj hnameOf
    exact ⟨_, List.mem_filterMap.2 ⟨_, ho, rfl⟩, rfl⟩

lemma exists_sortedNames {nodes : List Node} {names : List CommentedName}
    (h : Imports.sortedNames nodes = .ok names) {n : Text} (hn : n ≠ []) :
    (∃ name ∈ names, name.name = n) ↔ NamesText n nodes := by
  obtain ⟨found, hfound, rfl⟩ := sortedNames_eq h
  have hrest (rest : List Node) :
      ¬ ∃ name ∈ if rest.isEmpty then [] else [(⟨rest, [], []⟩ : CommentedName)], name.name = n := by
    split_ifs
    · simp
    · simpa using Ne.symm hn
  rw [← exists_nameOf hfound n]
  simp only [List.mem_append, or_and_right, exists_or]
  rw [or_iff_left (hrest _)]
  simp only [List.mem_mergeSort]
  rw [exists_mergeNames]
  simp

variable {groups : List CommentedImport} {entries : List ImportEntry}

lemma item_of_entry (h : Imports.sortedEntries groups = .ok entries) {entry : ImportEntry}
    (hentry : entry ∈ entries) {p : Text} (hp : entry.path = some p) :
    ∃ item ∈ Imports.mergeAll groups, Imports.entryOf item = .ok entry := by
  obtain ⟨ranked, sorted, hranked, hsorted, rfl⟩ := sortedEntries_eq h
  rcases List.mem_append.1 hentry with hentry | hentry
  · obtain ⟨r, hr, heq⟩ := mapM_of_mem hsorted hentry
    obtain ⟨item, hitem, hrank⟩ := mapM_of_mem hranked (List.mem_mergeSort.1 hr)
    exact ⟨item, hitem, (rank_eq hrank).2 ▸ heq⟩
  · split_ifs at hentry
    · cases hentry
    · rw [List.mem_singleton.1 hentry] at hp
      cases hp

lemma exists_entry (h : Imports.sortedEntries groups = .ok entries) :
    (∃ entry ∈ entries, entry.path = some p) ↔ HasImport groups p fun _ => True := by
  rw [← exists_mergeAll (by simp)]
  constructor
  · rintro ⟨entry, hentry, hp⟩
    obtain ⟨item, hitem, heq⟩ := item_of_entry h hentry hp
    obtain ⟨names, -, rfl⟩ := entryOf_eq heq
    exact ⟨item, hitem, Option.some.inj hp, trivial⟩
  · rintro ⟨item, hitem, rfl, -⟩
    obtain ⟨entry, hentry, heq⟩ := sortedEntries_has h hitem
    obtain ⟨names, -, rfl⟩ := entryOf_eq heq
    exact ⟨_, hentry, rfl⟩

lemma exists_lists (h : Imports.sortedEntries groups = .ok entries) {n : Text} :
    (∃ entry ∈ entries, entry.path = some p ∧ entry.Lists n) ↔
      n ≠ [] ∧ HasImport groups p (NamesText n) := by
  rw [← exists_mergeAll (namesText_append n)]
  constructor
  · rintro ⟨entry, hentry, hp, hn, hname⟩
    obtain ⟨item, hitem, heq⟩ := item_of_entry h hentry hp
    obtain ⟨names, hnames, rfl⟩ := entryOf_eq heq
    exact ⟨hn, item, hitem, Option.some.inj hp, (exists_sortedNames hnames hn).1 hname⟩
  · rintro ⟨hn, item, hitem, rfl, hname⟩
    obtain ⟨entry, hentry, heq⟩ := sortedEntries_has h hitem
    obtain ⟨names, hnames, rfl⟩ := entryOf_eq heq
    exact ⟨_, hentry, rfl, hn, (exists_sortedNames hnames hn).2 hname⟩

lemma entries_distinct (h : Imports.sortedEntries groups = .ok entries) :
    (entries.map fun entry => (entry.path, Imports.tailText entry.tail)).Nodup := by
  obtain ⟨ranked, sorted, hranked, hsorted, rfl⟩ := sortedEntries_eq h
  have hitems : ranked.map (fun r => r.2.key) = (Imports.mergeAll groups).map Imports.Merged.key :=
    map_of_mapM hranked fun item r hr => by rw [(rank_eq hr).2]
  have hkeys : (sorted.map fun entry => (entry.path, Imports.tailText entry.tail)) =
      ((ranked.mergeSort Imports.comesBefore).map fun r => r.2.key).map fun key => (some key.1, key.2) := by
    rw [List.map_map]
    refine map_of_mapM hsorted fun r entry hentry => ?_
    obtain ⟨names, -, rfl⟩ := entryOf_eq hentry
    rfl
  have hnodup : ((ranked.mergeSort Imports.comesBefore).map fun r => r.2.key).Nodup := by
    rw [((ranked.mergeSort_perm _).map _).nodup_iff, hitems]
    exact mergeAll_keys_nodup groups
  rw [List.map_append, hkeys]
  refine List.nodup_append.2 ⟨hnodup.map fun a b hab => by simpa [Prod.ext_iff] using hab, ?_, ?_⟩
  · split_ifs <;> simp
  · rintro a ha b hb rfl
    obtain ⟨key, -, rfl⟩ := List.mem_map.1 ha
    split_ifs at hb <;> simp at hb

lemma names_of_pathless (h : Imports.sortedEntries groups = .ok entries) {entry : ImportEntry}
    (hentry : entry ∈ entries) (hp : entry.path = none) : entry.names = [] := by
  obtain ⟨ranked, sorted, -, hsorted, rfl⟩ := sortedEntries_eq h
  rcases List.mem_append.1 hentry with hentry | hentry
  · obtain ⟨r, -, heq⟩ := mapM_of_mem hsorted hentry
    obtain ⟨names, -, rfl⟩ := entryOf_eq heq
    cases hp
  · split_ifs at hentry
    · cases hentry
    · rw [List.mem_singleton.1 hentry]

end Merging

end DpLang
