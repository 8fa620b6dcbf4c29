import DpLang.Proofs.Plan
import Mathlib.Data.List.Forall2

/-!
# Import blocks of sound files

The imports of a file whose nodes are all in place can be consolidated, and what comes out is sound
again: comments where comments are expected, paths, and names. What counts as a comment, a path or a
name is given by a vocabulary.
-/

namespace DpLang

section Lists

variable {ε α β : Type}

lemma mapM_ok {f : α → Except ε β} {P : α → β → Prop} {xs : List α}
    (h : ∀ x ∈ xs, ∃ y, f x = .ok y ∧ P x y) :
    ∃ ys, xs.mapM f = .ok ys ∧ List.Forall₂ P xs ys := by
  induction xs with
  | nil => exact ⟨[], rfl, .nil⟩
  | cons x xs ih =>
    rw [List.forall_mem_cons] at h
    obtain ⟨y, hy, hP⟩ := h.1
    obtain ⟨ys, hys, hPs⟩ := ih h.2
    refine ⟨y :: ys, ?_, .cons hP hPs⟩
    rw [List.mapM_cons, hy, hys]
    rfl

lemma forall₂_of_mapM {f : α → Except ε β} {xs : List α} {ys : List β} (h : xs.mapM f = .ok ys) :
    List.Forall₂ (fun x y => f x = .ok y) xs ys := by
  induction xs generalizing ys with
  | nil =>
    obtain rfl := Except.ok.inj h
    exact .nil
  | cons x xs ih =>
    rw [List.mapM_cons] at h
    obtain ⟨y, hy, h⟩ := of_bind_ok h
    obtain ⟨rest, hys, h⟩ := of_bind_ok h
    obtain rfl := Except.ok.inj h
    exact .cons hy (ih hys)

lemma exists_of_forall₂ {P : α → β → Prop} {xs : List α} {ys : List β} (h : List.Forall₂ P xs ys)
    {x : α} (hx : x ∈ xs) : ∃ y ∈ ys, P x y := by
  induction h with
  | nil => cases hx
  | cons hP _ ih =>
    rcases List.mem_cons.1 hx with rfl | hx
    · exact ⟨_, List.mem_cons_self, hP⟩
    · obtain ⟨y, hy, hP⟩ := ih hx
      exact ⟨y, List.mem_cons_of_mem _ hy, hP⟩

lemma mem_mapM {f : α → Except ε β} {xs : List α} {ys : List β} (h : xs.mapM f = .ok ys) {x : α}
    (hx : x ∈ xs) : ∃ y ∈ ys, f x = .ok y :=
  exists_of_forall₂ (forall₂_of_mapM h) hx

lemma mapM_of_mem {f : α → Except ε β} {xs : List α} {ys : List β} (h : xs.mapM f = .ok ys) {y : β}
    (hy : y ∈ ys) : ∃ x ∈ xs, f x = .ok y :=
  exists_of_forall₂ (forall₂_of_mapM h).flip hy

lemma map_of_mapM {γ : Type} {f : α → Except ε β} {xs : List α} {ys : List β} (h : xs.mapM f = .ok ys)
    {g : β → γ} {k : α → γ} (hg : ∀ x y, f x = .ok y → g y = k x) : ys.map g = xs.map k := by
  have hall := forall₂_of_mapM h
  clear h
  induction hall with
  | nil => rfl
  | cons hx _ ih => rw [List.map_cons, List.map_cons, hg _ _ hx, ih]

lemma forall₂_forall {P : α → β → Prop} {Q : β → Prop} {xs : List α} {ys : List β}
    (h : List.Forall₂ P xs ys) (hQ : ∀ x y, P x y → Q y) : ∀ y ∈ ys, Q y := by
  induction h with
  | nil => simp
  | cons hP _ ih => exact List.forall_mem_cons.mpr ⟨hQ _ _ hP, ih⟩

end Lists

section Steps

lemma sortedNames_eq {nodes : List Node} {names : List CommentedName}
    (h : Imports.sortedNames nodes = .ok names) :
    ∃ found, (Commented.split false nodes).mapM Imports.nameOf = .ok found ∧
      names = ((found.filterMap id).foldl (fun items name => Imports.mergeName name items) []).mergeSort
          (fun a b => Text.le a.name b.name) ++
        if ((Commented.split false nodes).flatMap fun group =>
          if group.node.isNone then group.head else []).isEmpty then []
        else [⟨(Commented.split false nodes).flatMap fun group =>
          if group.node.isNone then group.head else [], [], []⟩] := by
  obtain ⟨found, hfound, h⟩ := of_bind_ok h
  exact ⟨found, hfound, (Except.ok.inj h).symm⟩

lemma rank_eq {item : Imports.Merged} {r : ImportPath.Group × Imports.Merged}
    (h : (do return (← ImportPath.group item.path, item)) = Except.ok r) :
    ImportPath.group item.path = .ok r.1 ∧ r.2 = item := by
  obtain ⟨group, hgroup, h⟩ := of_bind_ok h
  obtain rfl := Except.ok.inj h
  exact ⟨hgroup, rfl⟩

lemma entryOf_eq {item : Imports.Merged} {entry : ImportEntry} (h : Imports.entryOf item = .ok entry) :
    ∃ names, Imports.sortedNames item.names = .ok names ∧
      entry = ⟨item.head, some item.path, names, item.tail⟩ := by
  obtain ⟨names, hnames, h⟩ := of_bind_ok h
  exact ⟨names, hnames, (Except.ok.inj h).symm⟩

lemma sortedEntries_eq {groups : List CommentedImport} {entries : List ImportEntry}
    (h : Imports.sortedEntries groups = .ok entries) :
    ∃ ranked sorted,
      (Imports.mergeAll groups).mapM
        (fun item => do return (← ImportPath.group item.path, item)) = .ok ranked ∧
      (ranked.mergeSort Imports.comesBefore).mapM (fun r => Imports.entryOf r.2) = .ok sorted ∧
      entries = sorted ++ if (Imports.leftovers groups).isEmpty then []
        else [⟨Imports.leftovers groups, none, [], none⟩] := by
  obtain ⟨ranked, hranked, h⟩ := of_bind_ok h
  obtain ⟨sorted, hsorted, h⟩ := of_bind_ok h
  exact ⟨ranked, sorted, hranked, hsorted, (Except.ok.inj h).symm⟩

end Steps

section Groups

/-- A node of a group is no comment, and what stands around it is. -/
structure Commented.Sound (comment good : Node → Prop) (group : Commented) : Prop where
  head : ∀ n ∈ group.head, comment n
  tail : ∀ n ∈ group.tail, comment n
  node : ∀ n ∈ group.node, good n ∧ n.isComment = false
  nonempty : group.node = none → group.head ≠ [] ∧ group.tail = []

lemma commentsBelow_isComment (node : Node) (nodes : List Node) :
    ∀ n ∈ Commented.commentsBelow node nodes, n.isComment = true := by
  induction nodes generalizing node with
  | nil => simp [Commented.commentsBelow]
  | cons next rest ih =>
    rw [Commented.commentsBelow]
    split
    · next h => exact List.forall_mem_cons.mpr ⟨(Bool.and_eq_true_iff.mp h).1, ih next⟩
    · simp

lemma tailOf_isComment (node : Node) (nodes : List Node) :
    ∀ n ∈ Commented.tailOf node nodes, n.isComment = true := by
  cases nodes with
  | nil => simp [Commented.tailOf]
  | cons next rest =>
    unfold Commented.tailOf
    dsimp only
    split
    · next h =>
      have hn := (Bool.and_eq_true_iff.mp h).1
      split
      · simpa using hn
      · simpa using hn
      · exact List.forall_mem_cons.mpr ⟨hn, commentsBelow_isComment next rest⟩
      · simp
    · simp

lemma commentsBelow_isFront (node : Node) (nodes : List Node) :
    Commented.commentsBelow node nodes <+: nodes := by
  induction nodes generalizing node with
  | nil => exact List.prefix_rfl
  | cons next rest ih =>
    rw [Commented.commentsBelow]
    split
    · exact (List.prefix_cons_inj next).2 (ih next)
    · exact List.nil_prefix

lemma tailOf_isFront (node : Node) (nodes : List Node) : Commented.tailOf node nodes <+: nodes := by
  cases nodes with
  | nil => exact List.prefix_rfl
  | cons next rest =>
    unfold Commented.tailOf
    dsimp only
    split
    · split
      · exact (List.prefix_cons_inj next).2 List.nil_prefix
      · exact (List.prefix_cons_inj next).2 List.nil_prefix
      · exact (List.prefix_cons_inj next).2 (commentsBelow_isFront next rest)
      · exact List.nil_prefix
    · exact List.nil_prefix

lemma splitAfter_sound {comment good : Node → Prop} (onGap : Bool) (head : List Node) (skipped : Nat)
    {nodes : List Node} (hh : ∀ n ∈ head, comment n)
    (hcomment : ∀ n ∈ nodes, n.isComment = true → comment n)
    (h : ∀ n ∈ nodes, n.isComment = false → good n) :
    ∀ group ∈ Commented.splitAfter onGap head skipped nodes, group.Sound comment good := by
  induction nodes generalizing head skipped with
  | nil =>
    rw [Commented.splitAfter]
    split
    · simp
    · next hne =>
      intro group hg
      obtain rfl := List.mem_singleton.mp hg
      exact ⟨hh, by simp, by simp, fun _ => ⟨by simpa using hne, rfl⟩⟩
  | cons node nodes ih =>
    rw [List.forall_mem_cons] at h hcomment
    cases skipped with
    | succ skipped => exact ih head skipped hh hcomment.2 h.2
    | zero =>
      rw [Commented.splitAfter]
      cases hc : node.isComment with
      | true =>
        have hh' : ∀ n ∈ head ++ [node], comment n := by
          intro n hn
          rcases List.mem_append.mp hn with hn | hn
          · exact hh n hn
          · rw [List.mem_singleton.mp hn]
            exact hcomment.1 hc
        rw [if_pos rfl]
        split
        · refine List.forall_mem_cons.mpr ⟨⟨hh', by simp, by simp, fun _ => ⟨by simp, rfl⟩⟩, ?_⟩
          exact ih [] 0 (by simp) hcomment.2 h.2
        · exact ih _ 0 hh' hcomment.2 h.2
      | false =>
        rw [if_neg Bool.false_ne_true]
        refine List.forall_mem_cons.mpr ⟨⟨hh, ?_, ?_, by simp⟩, ih [] _ (by simp) hcomment.2 h.2⟩
        · dsimp only
          split
          · simp
          · exact fun n hn => hcomment.2 n ((tailOf_isFront node nodes).subset hn)
              (tailOf_isComment node nodes n hn)
        · intro n hn
          obtain rfl := Option.some.inj hn
          exact ⟨h.1 hc, hc⟩

lemma split_sound {comment good : Node → Prop} (onGap : Bool) {nodes : List Node}
    (hcomment : ∀ n ∈ nodes, n.isComment = true → comment n)
    (h : ∀ n ∈ nodes, n.isComment = false → good n) :
    ∀ group ∈ Commented.split onGap nodes, group.Sound comment good :=
  splitAfter_sound onGap [] 0 (by simp) hcomment h

end Groups

section Vocabularies

lemma join_cons_cons (separator x y : Text) (rest : List Text) :
    Text.join separator (x :: y :: rest) = x ++ (separator ++ Text.join separator (y :: rest)) := by
  simp [Text.join, List.intercalate]

lemma join_ne_nil {separator : Text} {parts : List Text} (h : parts.getLast?.getD [] ≠ []) :
    Text.join separator parts ≠ [] := by
  induction parts with
  | nil => exact absurd rfl h
  | cons x parts ih =>
    cases parts with
    | nil => simpa [Text.join, List.intercalate] using h
    | cons y rest =>
      rw [join_cons_cons]
      have := ih (by simpa [List.getLast?_cons_cons] using h)
      simp [this]

/-- What counts as a comment, as a path, as a member of a list of names, and as the text of a name. -/
structure Vocabulary where
  comment : Node → Prop
  path : Text → Prop
  name : Node → Prop
  text : Text → Prop
  isComment : ∀ {n}, comment n → n.isComment = true
  isImportPath : ∀ {p}, path p → isImportPath p = true
  name_cases : ∀ {n}, name n → comment n ∨ ∃ start own stop, n = .identifier start own stop ∧
    text own.text ∧ name (.identifier start [own.short] stop)

/-- The imports in a node are `clause`, and what stands between them is `comment`. -/
def Node.ImportsAre (comment clause : Node → Prop) : Node → Prop
  | .functionDef _ _ _ body => ∀ n ∈ Node.nestedImportsOf body, clause n
  | .typeDef _ _ _ fields _ => ∀ n ∈ fields, n.isImport = true → clause n
  | .importList _ imports _ => ∀ n ∈ imports, comment n ∨ clause n
  | n@(.importNames _ _ _ _) => clause n
  | _ => True

namespace Vocabulary

/-- An import whose path and names are in the vocabulary. -/
def Clause (V : Vocabulary) : Node → Prop
  | .importNames _ path names _ => V.path path ∧ ∀ n ∈ names, V.name n
  | _ => False

def Imports (V : Vocabulary) (n : Node) : Prop := n.ImportsAre V.comment V.Clause

/-- Every name has a text. -/
def Named (V : Vocabulary) : Prop := ¬ V.text []

variable {V : Vocabulary} {n : Node}

lemma Clause.cases (h : V.Clause n) :
    ∃ start path names stop, n = .importNames start path names stop ∧ V.path path ∧
      ∀ n ∈ names, V.name n := by
  cases n with
  | importNames start path names stop => exact ⟨_, _, _, _, rfl, h⟩
  | _ => exact h.elim

lemma comment_of_name (h : V.name n) (hc : n.isComment = true) : V.comment n := by
  obtain hcomment | ⟨start, own, stop, rfl, -⟩ := V.name_cases h
  · exact hcomment
  · cases hc

/-- What the layout asks of imports. -/
def plain : Vocabulary where
  comment n := n.isComment = true
  path p := DpLang.isImportPath p = true
  name n := n.isName = true
  text _ := True
  isComment := id
  isImportPath := id
  name_cases {n} h := by
    cases n with
    | comment start source => exact .inl rfl
    | identifier start own stop => exact .inr ⟨start, own, stop, rfl, trivial, rfl⟩
    | _ => exact Bool.noConfusion h

end Vocabulary

end Vocabularies

section Clauses

mutual
lemma nestedImports_isClause :
    ∀ n : Node, n.isStatement ∨ n.isClause → ∀ m ∈ n.nestedImports, m.isClause = true := by
  intro n h m hm
  cases n with
  | importNames start path names stop =>
    rw [Node.nestedImports] at hm
    split at hm
    · simp at hm
    · rw [List.mem_singleton.mp hm]
      exact h.resolve_left (by simp [Node.isStatement])
  | block start body stop =>
    rw [Node.nestedImports] at hm
    exact nestedImportsOf_isClause body (h.resolve_right (by simp [Node.isClause])) m hm
  | forLoop start test bodyStart body stop =>
    rw [Node.nestedImports] at hm
    have h' := h.resolve_right (by simp [Node.isClause])
    refine nestedImportsOf_isClause body ?_ m hm
    cases test with
    | none => rw [Node.isStatement] at h'; exact h'
    | some test =>
      rw [Node.isStatement, Bool.and_eq_true] at h'
      exact h'.2
  | ifElse start test thenStart thenBody thenStop elseBody stop =>
    rw [Node.nestedImports] at hm
    have h' := h.resolve_right (by simp [Node.isClause])
    rw [Node.isStatement, Bool.and_eq_true, Bool.and_eq_true] at h'
    rcases List.mem_append.mp hm with hm | hm
    · exact nestedImportsOf_isClause thenBody h'.1.2 m hm
    · exact nestedImportsOf_isClause elseBody h'.2 m hm
  | _ => simp [Node.nestedImports] at hm

lemma nestedImportsOf_isClause :
    ∀ nodes : List Node, areStatements nodes → ∀ m ∈ Node.nestedImportsOf nodes, m.isClause = true := by
  intro nodes h m hm
  cases nodes with
  | nil => simp [Node.nestedImportsOf] at hm
  | cons node nodes =>
    have hrest : areStatements nodes := by
      cases node <;> first | exact h | exact (Bool.and_eq_true_iff.mp h).2
    rw [Node.nestedImportsOf] at hm
    rcases List.mem_append.mp hm with hm | hm
    · by_cases hc : node.isComment
      · cases node <;> first | exact Bool.noConfusion hc | simp [Node.nestedImports] at hm
      · refine nestedImports_isClause node ?_ m hm
        cases node <;>
          first
          | exact absurd rfl hc
          | exact .inl (Bool.and_eq_true_iff.mp h).1
          | exact .inr (Bool.and_eq_true_iff.mp h).1
    · exact nestedImportsOf_isClause nodes hrest m hm
end

lemma isImport_of_isClause {n : Node} (h : n.isClause = true) : n.isImport = true := by
  cases n <;> first | rfl | exact Bool.noConfusion h

lemma importsAre_of_isFileMember {n : Node} (h : n.isFileMember = true) :
    n.ImportsAre (fun m => m.isComment = true) fun m => m.isClause = true := by
  cases n with
  | functionDef head params results body =>
    rw [Node.isFileMember, Bool.and_eq_true] at h
    exact nestedImportsOf_isClause body h.2
  | typeDef start isPublic name fields stop =>
    intro m hm hi
    have hfield := List.all_eq_true.mp h m hm
    cases m <;> first | exact Bool.noConfusion hi | exact hfield
  | importList start imports stop =>
    intro m hm
    have hmember := List.all_eq_true.mp h m hm
    rwa [Node.isImportMember, Bool.or_eq_true] at hmember
  | importNames start path names stop => exact Bool.noConfusion h
  | _ => trivial

/-- What is gathered from a member of a file are imports and comments. Only an import that is itself a
member brings along the comments of its group. -/
lemma gather_clauses {comment clause : Node → Prop} (hcomment : ∀ {n}, comment n → n.isComment = true)
    (hclause : ∀ {n}, clause n → n.isImport = true) {group : Commented}
    (h : ∀ n ∈ group.node, n.ImportsAre comment clause)
    (hown : ∀ n ∈ group.node, n.isImport = true → group.Sound comment clause) :
    ∀ g ∈ Imports.gather group, g.Sound comment clause := by
  have hfree {n : Node} (hn : n.isImport = true) : n.isComment = false := by
    cases n <;> first | rfl | exact Bool.noConfusion hn
  have hbare (n : Node) (hn : clause n) : Commented.Sound comment clause { node := some n } := by
    refine ⟨by simp, by simp, fun m hm => ?_, by simp⟩
    obtain rfl := Option.some.inj hm
    exact ⟨hn, hfree (hclause hn)⟩
  intro g hg
  unfold Imports.gather at hg
  cases hnode : group.node with
  | none => rw [hnode] at hg; simp at hg
  | some node =>
    have hn := h node hnode
    rw [hnode] at hg
    cases node with
    | functionDef head params results body =>
      obtain ⟨n, hmem, rfl⟩ := List.mem_map.mp hg
      exact hbare n (hn n hmem)
    | typeDef start isPublic name fields stop =>
      obtain ⟨n, hmem, rfl⟩ := List.mem_map.mp hg
      obtain ⟨f, hf, hmem⟩ := List.mem_flatMap.mp hmem
      obtain ⟨hf, himport⟩ := List.mem_filter.mp hf
      have hown := hn f hf himport
      cases f with
      | importNames start path names stop =>
        rw [Node.nestedImports] at hmem
        split at hmem
        · simp at hmem
        · rw [List.mem_singleton.mp hmem]
          exact hbare _ hown
      | _ => cases himport
    | importList start imports stop =>
      refine split_sound false (fun n hmem hc => ?_) (fun n hmem hc => ?_) g hg
      · refine (hn n hmem).resolve_right fun hown => ?_
        rw [hfree (hclause hown)] at hc
        cases hc
      · refine (hn n hmem).resolve_left fun hown => ?_
        rw [hcomment hown] at hc
        cases hc
    | importNames start path names stop =>
      obtain rfl := List.mem_singleton.mp hg
      exact hown _ hnode rfl
    | _ => simp at hg

variable {V : Vocabulary}

lemma Vocabulary.Clause.isImport {n : Node} (h : V.Clause n) : n.isImport = true := by
  obtain ⟨_, _, _, _, rfl, _⟩ := h.cases
  rfl

lemma gather_sound {group : Commented} (h : group.Sound V.comment V.Imports) :
    ∀ g ∈ Imports.gather group, g.Sound V.comment V.Clause := by
  refine gather_clauses V.isComment Vocabulary.Clause.isImport (fun n hn => (h.node n hn).1)
    fun n hn himport => ?_
  cases n with
  | importNames start path names stop =>
    refine ⟨h.head, h.tail, fun m hm => ?_, h.nonempty⟩
    obtain rfl := Option.some.inj (hn.symm.trans hm)
    exact ⟨(h.node _ hn).1, rfl⟩
  | _ => cases himport

/-- An import with comments around it, a path and names. -/
structure CommentedImport.Sound (V : Vocabulary) (g : CommentedImport) : Prop where
  head : ∀ n ∈ g.head, V.comment n
  tail : ∀ n ∈ g.tail, V.comment n
  path : ∀ c ∈ g.clause, V.path c.path
  names : ∀ c ∈ g.clause, ∀ n ∈ c.names, V.name n

lemma clauseOf_ok {g : Commented} (h : g.Sound V.comment V.Clause) :
    ∃ c, Imports.clauseOf g = .ok c ∧ c.Sound V := by
  unfold Imports.clauseOf
  cases hnode : g.node with
  | none => exact ⟨_, rfl, h.head, h.tail, by simp, by simp⟩
  | some node =>
    obtain ⟨start, path, names, stop, rfl, hpath, hnames⟩ := (h.node node hnode).1.cases
    refine ⟨_, rfl, h.head, h.tail, ?_, ?_⟩
    · intro c hc
      obtain rfl := Option.some.inj hc
      exact hpath
    · intro c hc
      obtain rfl := Option.some.inj hc
      exact hnames

end Clauses

section Resolution

variable {V : Vocabulary}

lemma unquote_ok {path : Text} (h : isImportPath path = true) (hne : path.isEmpty = false) :
    ∃ inner complete, ImportPath.unquote path = .ok (inner, complete) := by
  rw [isImportPath, hne, Bool.false_or] at h
  exact ⟨_, _, if_pos h⟩

lemma group_ok {path : Text} (h : isImportPath path = true) :
    ∃ group, ImportPath.group path = .ok group := by
  cases he : path.isEmpty with
  | true =>
    obtain rfl := List.isEmpty_iff.mp he
    exact ⟨_, rfl⟩
  | false =>
    obtain ⟨inner, complete, hu⟩ := unquote_ok h he
    rw [isImportPath, he, Bool.false_or, Bool.and_eq_true] at h
    refine ⟨ImportPath.groupOf inner, ?_⟩
    rw [ImportPath.group, if_pos h.1, hu]
    rfl

/-- The providers of namespaces are paths. -/
def ProvidersSound (V : Vocabulary) (providers : Imports.Providers) : Prop :=
  ∀ entry ∈ providers, ∀ path ∈ entry.2, V.path path

lemma provide_sound {path : Text} (hp : V.path path) {providers : Imports.Providers}
    (h : ProvidersSound V providers) (name : Text) :
    ProvidersSound V (Imports.provide path providers name) := by
  induction providers with
  | nil =>
    intro entry he p hpath
    obtain rfl := List.mem_singleton.mp he
    obtain rfl := Option.some.inj hpath
    exact hp
  | cons entry providers ih =>
    obtain ⟨other, provider⟩ := entry
    have h' := List.forall_mem_cons.mp h
    rw [Imports.provide]
    split
    · refine List.forall_mem_cons.mpr ⟨?_, h'.2⟩
      split
      · exact h'.1
      · simp
    · exact List.forall_mem_cons.mpr ⟨h'.1, ih h'.2⟩

lemma provideAll_ok {providers : Imports.Providers} (h : ProvidersSound V providers)
    {g : CommentedImport} (hg : g.Sound V) :
    ∃ next, Imports.provideAll providers g.clause = .ok next ∧ ProvidersSound V next := by
  unfold Imports.provideAll
  cases hc : g.clause with
  | none => exact ⟨providers, rfl, h⟩
  | some clause =>
    dsimp only
    cases he : clause.path.isEmpty with
    | true => exact ⟨providers, rfl, h⟩
    | false =>
      have hp := hg.path clause hc
      obtain ⟨inner, complete, hu⟩ := unquote_ok (V.isImportPath hp) he
      rw [if_neg Bool.false_ne_true, hu]
      cases complete with
      | false => exact ⟨providers, rfl, h⟩
      | true =>
        refine ⟨_, rfl, ?_⟩
        generalize ImportPath.namespaces inner = names
        induction names generalizing providers with
        | nil => exact h
        | cons name names ih => exact ih (provide_sound hp h name)

lemma providers_ok {gathered : List CommentedImport} (hg : ∀ g ∈ gathered, g.Sound V)
    {start : Imports.Providers} (h : ProvidersSound V start) :
    ∃ providers, gathered.foldlM (fun ps g => Imports.provideAll ps g.clause) start = .ok providers ∧
      ProvidersSound V providers := by
  induction gathered generalizing start with
  | nil => exact ⟨start, rfl, h⟩
  | cons g gathered ih =>
    rw [List.forall_mem_cons] at hg
    obtain ⟨next, hnext, hsound⟩ := provideAll_ok h hg.1
    obtain ⟨providers, hp, hps⟩ := ih hg.2 hsound
    refine ⟨providers, ?_, hps⟩
    rw [List.foldlM_cons, hnext]
    exact hp

lemma mem_of_lookup {providers : Imports.Providers} {name : Text} {provider : Option Text}
    (h : providers.lookup name = some provider) : ∃ entry ∈ providers, entry.2 = provider := by
  induction providers with
  | nil => simp at h
  | cons entry providers ih =>
    obtain ⟨other, own⟩ := entry
    rw [List.lookup_cons] at h
    split at h
    · exact ⟨(other, own), List.mem_cons_self, Option.some.inj h⟩
    · obtain ⟨entry, hmem, heq⟩ := ih h
      exact ⟨entry, List.mem_cons_of_mem _ hmem, heq⟩

/-- Names that went to paths. -/
def FoundSound (V : Vocabulary) (found : List (Text × List Node)) : Prop :=
  ∀ entry ∈ found, V.path entry.1 ∧ ∀ n ∈ entry.2, V.name n

lemma addName_sound {path : Text} (hp : V.path path) {name : Node} (hn : V.name name)
    {found : List (Text × List Node)} (h : FoundSound V found) :
    FoundSound V (Imports.addName path name found) := by
  induction found with
  | nil => exact List.forall_mem_cons.mpr ⟨⟨hp, by simpa using hn⟩, by simp⟩
  | cons entry found ih =>
    obtain ⟨other, names⟩ := entry
    have h' := List.forall_mem_cons.mp h
    rw [Imports.addName]
    split
    · refine List.forall_mem_cons.mpr ⟨⟨h'.1.1, fun n hmem => ?_⟩, h'.2⟩
      rcases List.mem_append.mp hmem with hmem | hmem
      · exact h'.1.2 n hmem
      · rw [List.mem_singleton.mp hmem]
        exact hn
    · exact List.forall_mem_cons.mpr ⟨h'.1, ih h'.2⟩

lemma resolveNames_ok {providers : Imports.Providers} (hps : ProvidersSound V providers)
    {names : List Node} (h : ∀ n ∈ names, V.name n) {found : List (Text × List Node)}
    (hf : FoundSound V found) {others : List Node} (ho : ∀ n ∈ others, V.name n) :
    ∃ found' others', Imports.resolveNames providers names found others = .ok (found', others') ∧
      FoundSound V found' ∧ ∀ n ∈ others', V.name n := by
  induction names generalizing found others with
  | nil => exact ⟨found, others, rfl, hf, ho⟩
  | cons node names ih =>
    rw [List.forall_mem_cons] at h
    obtain hcomment | ⟨start, name, stop, rfl, -, hshort⟩ := V.name_cases h.1
    · have hc := V.isComment hcomment
      cases node with
      | comment start source => exact ih h.2 hf ho
      | _ => exact Bool.noConfusion hc
    · rw [Imports.resolveNames]
      split
      · next path hlookup =>
        obtain ⟨entry, hmem, heq⟩ := mem_of_lookup hlookup
        exact ih h.2 (addName_sound (hps entry hmem path heq) hshort hf) ho
      · refine ih h.2 hf (fun n hmem => ?_)
        rcases List.mem_append.mp hmem with hmem | hmem
        · exact ho n hmem
        · rw [List.mem_singleton.mp hmem]
          exact h.1

lemma addHead_sound {head : List Node} (hh : ∀ n ∈ head, V.comment n)
    {groups : List CommentedImport} (h : ∀ g ∈ groups, g.Sound V) :
    ∀ g ∈ Imports.addHead head groups, g.Sound V := by
  cases groups with
  | nil => exact h
  | cons first rest =>
    rw [List.forall_mem_cons] at h
    refine List.forall_mem_cons.mpr ⟨⟨fun n hmem => ?_, h.1.tail, h.1.path, h.1.names⟩, h.2⟩
    rcases List.mem_append.mp hmem with hmem | hmem
    · exact h.1.head n hmem
    · exact hh n hmem

lemma resolve_ok {providers : Imports.Providers} (hps : ProvidersSound V providers)
    {g : CommentedImport} (hg : g.Sound V) :
    ∃ groups counts, Imports.resolve providers g = .ok (groups, counts) ∧
      ∀ r ∈ groups, r.Sound V := by
  unfold Imports.resolve
  cases hc : g.clause with
  | none => exact ⟨[g], [], rfl, by simpa using hg⟩
  | some clause =>
    dsimp only
    cases he : clause.path.isEmpty with
    | false => exact ⟨[g], [], rfl, by simpa using hg⟩
    | true =>
      obtain ⟨found, others, hr, hf, ho⟩ := resolveNames_ok hps (hg.names clause hc)
        (by simp [FoundSound] : FoundSound V []) (by simp : ∀ n ∈ ([] : List Node), V.name n)
      have hresolved : ∀ r ∈ found.map fun entry =>
          (⟨[], some { clause with path := entry.1, names := entry.2 }, []⟩ : CommentedImport), r.Sound V := by
        intro r hr
        obtain ⟨entry, hmem, rfl⟩ := List.mem_map.mp hr
        have hentry := hf entry hmem
        refine ⟨by simp, by simp, fun c hc => ?_, fun c hc => ?_⟩
        · obtain rfl := Option.some.inj hc
          exact hentry.1
        · obtain rfl := Option.some.inj hc
          exact hentry.2
      rw [Bool.not_true, if_neg Bool.false_ne_true, hr]
      dsimp only [bind, Except.bind]
      split
      · exact ⟨_, _, rfl, addHead_sound hg.head hresolved⟩
      · refine ⟨_, _, rfl, fun r hr => ?_⟩
        rcases List.mem_append.mp hr with hr | hr
        · exact hresolved r hr
        · rw [List.mem_singleton.mp hr]
          refine ⟨hg.head, hg.tail, fun c hcl => ?_, fun c hcl => ?_⟩
          · obtain rfl := Option.some.inj hcl
            exact hg.path clause hc
          · obtain rfl := Option.some.inj hcl
            exact ho

end Resolution

section Sorting

variable {V : Vocabulary}

/-- The imports of one path, with comments where they belong. -/
structure Imports.Merged.Sound (V : Vocabulary) (item : Imports.Merged) : Prop where
  head : ∀ n ∈ item.head, V.comment n
  path : V.path item.path
  names : ∀ n ∈ item.names, V.name n
  tail : ∀ n ∈ item.tail, V.comment n

lemma mem_append_of {α : Type} {P : α → Prop} {xs ys : List α} (hx : ∀ x ∈ xs, P x)
    (hy : ∀ y ∈ ys, P y) : ∀ z ∈ xs ++ ys, P z := by
  intro z hz
  exact (List.mem_append.mp hz).elim (hx z) (hy z)

lemma mergeInto_sound {head : List Node} {clause : ImportClause} {tail : Option Node}
    (hh : ∀ n ∈ head, V.comment n) (hp : V.path clause.path)
    (hn : ∀ n ∈ clause.names, V.name n) (ht : ∀ n ∈ tail, V.comment n)
    {items : List Imports.Merged} (h : ∀ item ∈ items, item.Sound V) :
    ∀ item ∈ Imports.mergeInto head clause tail items, item.Sound V := by
  induction items with
  | nil => exact List.forall_mem_cons.mpr ⟨⟨hh, hp, hn, ht⟩, by simp⟩
  | cons item items ih =>
    rw [List.forall_mem_cons] at h
    rw [Imports.mergeInto]
    split
    · refine List.forall_mem_cons.mpr ⟨⟨?_, h.1.path, ?_, h.1.tail⟩, h.2⟩
      · exact mem_append_of h.1.head hh
      · exact mem_append_of h.1.names hn
    · exact List.forall_mem_cons.mpr ⟨h.1, ih h.2⟩

lemma mergeAll_sound {groups : List CommentedImport} (h : ∀ g ∈ groups, g.Sound V) :
    ∀ item ∈ Imports.mergeAll groups, item.Sound V := by
  unfold Imports.mergeAll
  suffices ∀ items : List Imports.Merged, (∀ item ∈ items, item.Sound V) →
      ∀ item ∈ groups.foldl _ items, item.Sound V from this [] (by simp)
  intro items hitems
  induction groups generalizing items with
  | nil => exact hitems
  | cons g groups ih =>
    rw [List.forall_mem_cons] at h
    rw [List.foldl_cons]
    refine ih h.2 _ ?_
    split
    · exact hitems
    · next clause hc =>
      refine mergeInto_sound h.1.head (h.1.path clause hc) (h.1.names clause hc) (fun n hn => ?_) hitems
      exact h.1.tail n (List.mem_of_mem_head? hn)

/-- A name with comments around it, or comments alone. -/
structure CommentedName.Sound (V : Vocabulary) (name : CommentedName) : Prop where
  head : ∀ n ∈ name.head, V.comment n
  tail : ∀ n ∈ name.tail, V.comment n
  named : V.text name.name ∨ name.name = [] ∧ name.head ≠ [] ∧ name.tail = []

namespace CommentedName.Sound

variable {name : CommentedName}

lemma text (h : name.Sound V) (hne : name.name ≠ []) : V.text name.name :=
  h.named.resolve_right fun hn => hne hn.1

lemma alone (h : name.Sound V) (hV : V.Named) (hn : name.name = []) :
    name.head ≠ [] ∧ name.tail = [] :=
  (h.named.resolve_left fun htext => hV (hn ▸ htext)).2

end CommentedName.Sound

lemma mergeName_sound {name : CommentedName} (hn : name.Sound V) {items : List CommentedName}
    (h : ∀ item ∈ items, item.Sound V) : ∀ item ∈ Imports.mergeName name items, item.Sound V := by
  induction items with
  | nil => exact List.forall_mem_cons.mpr ⟨hn, by simp⟩
  | cons item items ih =>
    rw [List.forall_mem_cons] at h
    rw [Imports.mergeName]
    split
    · next hname =>
      refine List.forall_mem_cons.mpr ⟨⟨mem_append_of h.1.head hn.head,
        mem_append_of h.1.tail hn.tail, ?_⟩, h.2⟩
      obtain htext | ⟨hnil, hhead, htail⟩ := h.1.named
      · exact .inl htext
      · obtain htext | ⟨-, -, htail'⟩ := hn.named
        · exact .inl (show V.text item.name from hname ▸ htext)
        · exact .inr ⟨hnil, by simp [hhead], by simp [htail, htail']⟩
    · exact List.forall_mem_cons.mpr ⟨h.1, ih h.2⟩

lemma nameOf_ok {g : Commented} (h : g.Sound V.comment V.name) :
    ∃ name, Imports.nameOf g = .ok name ∧ ∀ n ∈ name, n.Sound V := by
  unfold Imports.nameOf
  cases hnode : g.node with
  | none => exact ⟨none, rfl, by simp⟩
  | some node =>
    obtain ⟨hgood, hcomment⟩ := h.node node hnode
    obtain hc | ⟨start, name, stop, rfl, htext, -⟩ := V.name_cases hgood
    · rw [V.isComment hc] at hcomment
      cases hcomment
    · refine ⟨_, rfl, fun n hn => ?_⟩
      obtain rfl := Option.some.inj hn
      exact ⟨h.head, h.tail, .inl htext⟩

lemma sortedNames_ok {nodes : List Node} (h : ∀ n ∈ nodes, V.name n) :
    ∃ names, Imports.sortedNames nodes = .ok names ∧ ∀ n ∈ names, n.Sound V := by
  have hgroups : ∀ group ∈ Commented.split false nodes, group.Sound V.comment V.name :=
    split_sound false (fun n hn hc => Vocabulary.comment_of_name (h n hn) hc) fun n hn _ => h n hn
  obtain ⟨names, hnames, hsound⟩ := mapM_ok fun g hg => nameOf_ok (hgroups g hg)
  have hall : ∀ n ∈ names.filterMap id, n.Sound V := by
    intro n hn
    obtain ⟨o, ho, hon⟩ := List.mem_filterMap.mp hn
    exact forall₂_forall hsound (fun _ _ h => h) o ho n hon
  have hmerged : ∀ n ∈ (names.filterMap id).foldl (fun items name => Imports.mergeName name items) [],
      n.Sound V := by
    suffices ∀ items : List CommentedName, (∀ item ∈ items, item.Sound V) →
        ∀ n ∈ (names.filterMap id).foldl (fun items name => Imports.mergeName name items) items,
          n.Sound V from this [] (by simp)
    generalize names.filterMap id = list at hall
    induction list with
    | nil => exact fun items hitems => hitems
    | cons name list ih =>
      rw [List.forall_mem_cons] at hall
      exact fun items hitems => ih hall.2 _ (mergeName_sound hall.1 hitems)
  unfold Imports.sortedNames
  dsimp only
  rw [hnames]
  refine ⟨_, rfl, mem_append_of ?_ ?_⟩
  · exact fun n hn => hmerged n (List.mem_mergeSort.mp hn)
  · split
    · simp
    · next hne =>
      intro n hn
      rw [List.mem_singleton.mp hn]
      refine ⟨fun m hm => ?_, by simp, .inr ⟨rfl, by simpa using hne, rfl⟩⟩
      obtain ⟨g, hg, hm⟩ := List.mem_flatMap.mp hm
      split at hm
      · exact (hgroups g hg).head m hm
      · simp at hm

structure ImportEntry.Sound (V : Vocabulary) (entry : ImportEntry) : Prop where
  head : ∀ n ∈ entry.head, V.comment n
  path : ∃ path, entry.path = some path ∧ V.path path
  names : ∀ n ∈ entry.names, n.Sound V
  tail : ∀ n ∈ entry.tail, V.comment n

/-- Entries with a path, and behind them the comments that belong to no import. -/
structure EntriesSound (V : Vocabulary) (entries : List ImportEntry) (sorted : List ImportEntry)
    (leftovers : List Node) : Prop where
  entries : entries =
    sorted ++ if leftovers.isEmpty then [] else [⟨leftovers, none, [], none⟩]
  sorted : ∀ entry ∈ sorted, entry.Sound V
  leftovers : ∀ n ∈ leftovers, V.comment n

lemma leftovers_comment {groups : List CommentedImport} (h : ∀ g ∈ groups, g.Sound V) :
    ∀ n ∈ Imports.leftovers groups, V.comment n := by
  intro n hn
  obtain ⟨g, hg, hn⟩ := List.mem_flatMap.mp hn
  split at hn
  · exact (h g hg).head n hn
  · simp at hn

lemma entryOf_ok {item : Imports.Merged} (h : item.Sound V) :
    ∃ entry, Imports.entryOf item = .ok entry ∧ entry.Sound V := by
  obtain ⟨names, hnames, hsound⟩ := sortedNames_ok h.names
  refine ⟨⟨item.head, some item.path, names, item.tail⟩, ?_, h.head, ⟨_, rfl, h.path⟩, hsound, h.tail⟩
  rw [Imports.entryOf, hnames]
  rfl

lemma sortedEntries_ok {groups : List CommentedImport} (h : ∀ g ∈ groups, g.Sound V) :
    ∃ entries sorted, Imports.sortedEntries groups = .ok entries ∧
      EntriesSound V entries sorted (Imports.leftovers groups) := by
  have hrank : ∀ item ∈ Imports.mergeAll groups, ∃ ranked : ImportPath.Group × Imports.Merged,
      (do return (← ImportPath.group item.path, item)) = Except.ok ranked ∧ ranked.2.Sound V := by
    intro item hitem
    have hsound := mergeAll_sound h item hitem
    obtain ⟨group, hgroup⟩ := group_ok (V.isImportPath hsound.path)
    exact ⟨(group, item), by rw [hgroup]; rfl, hsound⟩
  obtain ⟨items, hitems, hranked⟩ := mapM_ok hrank
  have hentry : ∀ ranked ∈ items.mergeSort Imports.comesBefore,
      ∃ entry, Imports.entryOf ranked.2 = .ok entry ∧ entry.Sound V := by
    intro ranked hmem
    have hmem' := List.mem_mergeSort.mp hmem
    exact entryOf_ok (forall₂_forall hranked (fun _ _ hs => hs) ranked hmem')
  obtain ⟨sorted, hsorted, hsound⟩ := mapM_ok hentry
  refine ⟨_, sorted, ?_, rfl, forall₂_forall hsound fun _ _ hs => hs, leftovers_comment h⟩
  rw [Imports.sortedEntries, hitems, bind_ok]
  change ((items.mergeSort Imports.comesBefore).mapM (fun ranked => Imports.entryOf ranked.2) >>= _) = _
  rw [hsorted]
  rfl

end Sorting

section Blocks

structure ImportBlock.Sound (V : Vocabulary) (block : ImportBlock) (sorted : List ImportEntry)
    (leftovers : List Node) : Prop where
  head : ∀ n ∈ block.head, V.comment n
  entries : EntriesSound V block.entries sorted leftovers

/-- The steps in which the imports of a file are consolidated. -/
structure Consolidation (groups : List Commented) (imports : Imports.Consolidated) where
  gathered : List CommentedImport
  providers : Imports.Providers
  resolved : List (List CommentedImport × List (Nat × Text))
  entries : List ImportEntry
  gathers : (groups.flatMap Imports.gather).mapM Imports.clauseOf = .ok gathered
  provides : gathered.foldlM (fun ps g => Imports.provideAll ps g.clause) [] = .ok providers
  resolves : gathered.mapM (Imports.resolve providers) = .ok resolved
  sorts : Imports.sortedEntries (resolved.flatMap Prod.fst) = .ok entries
  block : imports.block = ⟨Imports.listHeads groups, entries⟩
  index : imports.index =
    if imports.block.isEmpty then none else Imports.place groups entries

lemma consolidate_gathered {V : Vocabulary} {groups : List Commented} {gathered : List CommentedImport}
    (hgathered : (groups.flatMap Imports.gather).mapM Imports.clauseOf = .ok gathered)
    (hsound : ∀ g ∈ gathered, g.Sound V) :
    ∃ imports, Imports.consolidate groups = .ok imports ∧
      ∃ (steps : Consolidation groups imports) (sorted : List ImportEntry),
        EntriesSound V imports.block.entries sorted
          (Imports.leftovers (steps.resolved.flatMap Prod.fst)) := by
  obtain ⟨providers, hproviders, hps⟩ := providers_ok hsound
    (by simp [ProvidersSound] : ProvidersSound V [])
  have hresolve : ∀ g ∈ gathered, ∃ result, Imports.resolve providers g = .ok result ∧
      ∀ r ∈ result.1, r.Sound V := by
    intro g hg
    obtain ⟨found, counts, heq, hs⟩ := resolve_ok hps (hsound g hg)
    exact ⟨(found, counts), heq, hs⟩
  obtain ⟨resolved, hresolved, hresults⟩ := mapM_ok hresolve
  have hall : ∀ r ∈ resolved.flatMap Prod.fst, r.Sound V := by
    intro r hr
    obtain ⟨result, hmem, hr⟩ := List.mem_flatMap.mp hr
    exact forall₂_forall hresults (fun _ _ hs => hs) result hmem r hr
  obtain ⟨entries, sorted, hentries, hsorted⟩ := sortedEntries_ok hall
  let block : ImportBlock := ⟨Imports.listHeads groups, entries⟩
  let imports : Imports.Consolidated :=
    ⟨if block.isEmpty then none else Imports.place groups entries, block, gathered.length,
      resolved.flatMap Prod.snd⟩
  refine ⟨imports, ?_, ⟨gathered, providers, resolved, entries, hgathered, hproviders, hresolved,
    hentries, rfl, rfl⟩, sorted, hsorted⟩
  rw [Imports.consolidate, hgathered, bind_ok, hproviders, bind_ok, hresolved, bind_ok, hentries]
  rfl

lemma listHeads_comment {comment : Node → Prop} {groups : List Commented}
    (h : ∀ g ∈ groups, ∀ n ∈ g.head, comment n) : ∀ n ∈ Imports.listHeads groups, comment n := by
  intro n hn
  obtain ⟨group, hgroup, hn⟩ := List.mem_flatMap.mp hn
  split at hn
  · exact h group hgroup n hn
  · simp at hn

lemma consolidate_ok {V : Vocabulary} {groups : List Commented}
    (h : ∀ g ∈ groups, g.Sound V.comment V.Imports) :
    ∃ imports, Imports.consolidate groups = .ok imports ∧
      ∃ (steps : Consolidation groups imports) (sorted : List ImportEntry),
        imports.block.Sound V sorted (Imports.leftovers (steps.resolved.flatMap Prod.fst)) := by
  have hgather : ∀ g ∈ groups.flatMap Imports.gather, g.Sound V.comment V.Clause := by
    intro g hg
    obtain ⟨group, hgroup, hg⟩ := List.mem_flatMap.mp hg
    exact gather_sound (h group hgroup) g hg
  obtain ⟨gathered, hgathered, hclauses⟩ := mapM_ok fun g hg => clauseOf_ok (hgather g hg)
  obtain ⟨imports, hc, steps, sorted, hsorted⟩ :=
    consolidate_gathered hgathered (forall₂_forall hclauses fun _ _ hs => hs)
  refine ⟨imports, hc, steps, sorted, ?_, hsorted⟩
  rw [steps.block]
  exact listHeads_comment fun g hg => (h g hg).head

/-- A member of a file with its comments. -/
def Commented.Plain : Commented → Prop :=
  Commented.Sound (fun n => n.isComment = true) fun n => n.isFileMember = true

lemma split_plain {nodes : List Node} (h : nodes.all Node.isFileMember = true) :
    ∀ g ∈ Commented.split true nodes, g.Plain :=
  split_sound true (fun _ _ hc => hc) fun n hn _ => List.all_eq_true.mp h n hn

end Blocks

end DpLang
