import DpLang.Proofs.Alike
import DpLang.Proofs.FileLayout

/-!
# Files that look alike

Nodes are twins if they are one tree moved by two shifts. If the shifts are alike, twins are grouped
with their comments in the same way, their imports are consolidated in the same way, and the plans
of files of twins are the same.
-/

namespace DpLang

/-- The nodes are one tree moved by the two shifts. -/
def Twin (s s' : Shift) (n m : Node) : Prop := ∃ z : Node, n = z.moved s ∧ m = z.moved s'

/-- The lists are one list of trees moved by the two shifts. -/
abbrev Twins (s s' : Shift) : List Node → List Node → Prop := List.Forall₂ (Twin s s')

section Twins

variable {s s' : Shift} {n m n' m' : Node} {ns ms : List Node}

lemma twins_map (nodes : List Node) :
    Twins s s' (nodes.map (Node.moved s)) (nodes.map (Node.moved s')) := by
  induction nodes with
  | nil => exact .nil
  | cons n nodes ih => exact .cons ⟨n, rfl, rfl⟩ ih

lemma Twins.exists_map (h : Twins s s' ns ms) :
    ∃ zs : List Node, ns = zs.map (Node.moved s) ∧ ms = zs.map (Node.moved s') := by
  induction h with
  | nil => exact ⟨[], rfl, rfl⟩
  | cons hn _ ih =>
    obtain ⟨z, rfl, rfl⟩ := hn
    obtain ⟨zs, rfl, rfl⟩ := ih
    exact ⟨z :: zs, rfl, rfl⟩

lemma Twin.isComment (h : Twin s s' n m) : n.isComment = m.isComment := by
  obtain ⟨z, rfl, rfl⟩ := h
  rw [Node.isComment_moved, Node.isComment_moved]

variable (ha : s.Alike s')

include ha

lemma Twin.step (h : Twin s s' n m) (h' : Twin s s' n' m') :
    clip (n.start.line - n'.stop.line) = clip (m.start.line - m'.stop.line) := by
  obtain ⟨z, rfl, rfl⟩ := h
  obtain ⟨z', rfl, rfl⟩ := h'
  rw [Node.start_moved, Node.start_moved]
  exact ha.behind z.start z'

lemma Twin.commentText (h : Twin s s' n m) : n.commentText = m.commentText := by
  obtain ⟨z, rfl, rfl⟩ := h
  exact commentText_alike ha z

lemma Twins.commentTexts (h : Twins s s' ns ms) :
    ns.map Node.commentText = ms.map Node.commentText := by
  obtain ⟨zs, rfl, rfl⟩ := h.exists_map
  exact commentTexts_alike ha zs

end Twins

section Groups

variable {s s' : Shift} {n m : Node} {ns ms : List Node}

structure TwinGroup (s s' : Shift) (g k : Commented) : Prop where
  head : Twins s s' g.head k.head
  node : Option.Rel (Twin s s') g.node k.node
  tail : Twins s s' g.tail k.tail

variable (ha : s.Alike s')

include ha

lemma gapBehind_twins (h : Twin s s' n m) (hs : Twins s s' ns ms) :
    Commented.gapBehind n ns = Commented.gapBehind m ms := by
  cases hs with
  | nil => rfl
  | cons hn _ =>
    have hstep := hn.step ha h
    unfold clip at hstep
    exact decide_eq_decide.2 (by omega)

lemma commentBehind_twins (h : Twin s s' n m) {n' m' : Node} (h' : Twin s s' n' m') {k : Int}
    (hk : k = 0 ∨ k = 1) :
    (n'.isComment && decide (n'.start.line - n.stop.line = k)) =
      (m'.isComment && decide (m'.start.line - m.stop.line = k)) := by
  have hstep := h'.step ha h
  unfold clip at hstep
  rw [h'.isComment]
  congr 1
  exact decide_eq_decide.2 (by omega)

lemma commentsBelow_twins (h : Twin s s' n m) (hs : Twins s s' ns ms) :
    Twins s s' (Commented.commentsBelow n ns) (Commented.commentsBelow m ms) := by
  induction hs generalizing n m with
  | nil => exact .nil
  | cons hn _ ih =>
    rw [Commented.commentsBelow, Commented.commentsBelow, commentBehind_twins ha h hn (.inr rfl)]
    split
    · exact .cons hn (ih hn)
    · exact .nil

omit ha in
lemma twins_ite {b b' : Bool} (hb : b = b') (hs : Twins s s' ns ms) :
    Twins s s' (if b then ns else []) (if b' then ms else []) := by
  subst hb
  split
  · exact hs
  · exact .nil

lemma tailOf_twins (h : Twin s s' n m) (hs : Twins s s' ns ms) :
    Twins s s' (Commented.tailOf n ns) (Commented.tailOf m ms) := by
  cases hs with
  | nil => exact .nil
  | cons hn hrest =>
    have hcond := commentBehind_twins ha h hn (.inl rfl)
    obtain ⟨z, rfl, rfl⟩ := h
    cases z with
    | constantDef => exact twins_ite hcond (.cons hn .nil)
    | importNames => exact twins_ite hcond (.cons hn .nil)
    | identifier => exact twins_ite hcond (.cons hn (commentsBelow_twins ha hn hrest))
    | forLoop _ test => cases test <;> exact twins_ite hcond .nil
    | _ => exact twins_ite hcond .nil

lemma splitAfter_twins {onGap : Bool} {head head' : List Node} {skipped : Nat}
    (hhead : Twins s s' head head') (hs : Twins s s' ns ms) :
    List.Forall₂ (TwinGroup s s') (Commented.splitAfter onGap head skipped ns)
      (Commented.splitAfter onGap head' skipped ms) := by
  induction hs generalizing head head' skipped with
  | nil =>
    rw [Commented.splitAfter, Commented.splitAfter]
    cases hhead with
    | nil => exact .nil
    | cons hn hrest => exact .cons ⟨.cons hn hrest, .none, .nil⟩ .nil
  | @cons n m ns ms hn hrest ih =>
    cases skipped with
    | succ skipped => exact ih hhead
    | zero =>
      rw [Commented.splitAfter, Commented.splitAfter]
      dsimp only
      rw [hn.isComment, gapBehind_twins ha hn hrest]
      have htail := tailOf_twins ha hn hrest
      have hone : Twins s s' (head ++ [n]) (head' ++ [m]) := List.rel_append hhead (.cons hn .nil)
      by_cases hc : m.isComment = true
      · rw [if_pos hc, if_pos hc]
        split
        · exact .cons ⟨hone, .none, .nil⟩ (ih .nil)
        · exact ih hone
      · rw [if_neg hc, if_neg hc]
        split
        · exact .cons ⟨hhead, .some hn, .nil⟩ (ih .nil)
        · rw [htail.length_eq]
          exact .cons ⟨hhead, .some hn, htail⟩ (ih .nil)

lemma split_twins (onGap : Bool) (hs : Twins s s' ns ms) :
    List.Forall₂ (TwinGroup s s') (Commented.split onGap ns) (Commented.split onGap ms) :=
  splitAfter_twins ha .nil hs

end Groups

section Gathering

variable {s s' : Shift} {g k : Commented}

mutual
lemma nestedImports_moved (s : Shift) (n : Node) :
    (n.moved s).nestedImports = n.nestedImports.map (Node.moved s) := by
  cases n with
  | importNames start path names stop =>
    simp only [Node.moved, Node.nestedImports, Node.movedAll_eq_map, List.isEmpty_map]
    split
    · rfl
    · simp [Node.moved]
  | block start body stop =>
    simp only [Node.moved, Node.nestedImports]
    exact nestedImportsOf_moved s body
  | forLoop start test bodyStart body stop =>
    cases test <;>
    · simp only [Node.moved, Node.nestedImports]
      exact nestedImportsOf_moved s body
  | ifElse start test thenStart thenBody thenStop elseBody stop =>
    simp only [Node.moved, Node.nestedImports, List.map_append, nestedImportsOf_moved s thenBody,
      nestedImportsOf_moved s elseBody]
  | _ => rfl

lemma nestedImportsOf_moved (s : Shift) (nodes : List Node) :
    Node.nestedImportsOf (Node.movedAll s nodes) = (Node.nestedImportsOf nodes).map (Node.moved s) := by
  cases nodes with
  | nil => rfl
  | cons n nodes =>
    simp only [Node.movedAll, Node.nestedImportsOf, List.map_append, nestedImports_moved s n,
      nestedImportsOf_moved s nodes]
end

lemma twinGroups_of_nodes (nodes : List Node) :
    List.Forall₂ (TwinGroup s s')
      ((nodes.map (Node.moved s)).map fun node => ({ node := some node } : Commented))
      ((nodes.map (Node.moved s')).map fun node => ({ node := some node } : Commented)) := by
  induction nodes with
  | nil => exact .nil
  | cons n nodes ih => exact .cons ⟨.nil, .some ⟨n, rfl, rfl⟩, .nil⟩ ih

lemma fieldImports_moved (s : Shift) (fields : List Node) :
    ((fields.map (Node.moved s)).filter Node.isImport).flatMap Node.nestedImports =
      ((fields.filter Node.isImport).flatMap Node.nestedImports).map (Node.moved s) := by
  induction fields with
  | nil => rfl
  | cons n fields ih =>
    have hi := Node.isImport_moved s n
    by_cases hn : n.isImport = true
    · rw [List.map_cons, List.filter_cons_of_pos (by rw [hi, hn]), List.filter_cons_of_pos hn,
        List.flatMap_cons, List.flatMap_cons, List.map_append, ih, nestedImports_moved]
    · rw [List.map_cons, List.filter_cons_of_neg (by rw [hi]; exact hn), List.filter_cons_of_neg hn, ih]

lemma gather_twins (ha : s.Alike s') (h : TwinGroup s s' g k) :
    List.Forall₂ (TwinGroup s s') (Imports.gather g) (Imports.gather k) := by
  obtain ⟨head, node, tail⟩ := g
  obtain ⟨head', node', tail'⟩ := k
  obtain ⟨hhead, hnode, htail⟩ := h
  cases hnode with
  | none => exact .nil
  | some hn =>
    have hgroup := TwinGroup.mk hhead (.some hn) htail
    obtain ⟨z, rfl, rfl⟩ := hn
    cases z with
    | functionDef h params results body =>
      simp only [Imports.gather, Node.moved, nestedImportsOf_moved]
      exact twinGroups_of_nodes _
    | typeDef start isPublic name fields stop =>
      simp only [Imports.gather, Node.moved, Node.movedAll_eq_map, fieldImports_moved]
      exact twinGroups_of_nodes _
    | importNames => exact .cons hgroup .nil
    | importList start imports stop =>
      simp only [Imports.gather, Node.moved, Node.movedAll_eq_map]
      exact split_twins ha false (twins_map imports)
    | forLoop _ test => cases test <;> exact .nil
    | _ => exact .nil

end Gathering

section Clauses

variable {s s' : Shift}

/-- The imports name the same path and twins. -/
structure TwinClause (s s' : Shift) (a b : ImportClause) : Prop where
  path : a.path = b.path
  names : Twins s s' a.names b.names

structure TwinImport (s s' : Shift) (a b : CommentedImport) : Prop where
  head : Twins s s' a.head b.head
  clause : Option.Rel (TwinClause s s') a.clause b.clause
  tail : Twins s s' a.tail b.tail

lemma mapM_related {α β α' β' ε : Type} {R : α → α' → Prop} {Q : β → β' → Prop}
    {f : α → Except ε β} {f' : α' → Except ε β'} {xs : List α} {xs' : List α'} {ys : List β}
    {ys' : List β'} (hR : List.Forall₂ R xs xs')
    (hf : ∀ {x x' y y'}, R x x' → f x = .ok y → f' x' = .ok y' → Q y y')
    (h : xs.mapM f = .ok ys) (h' : xs'.mapM f' = .ok ys') : List.Forall₂ Q ys ys' := by
  induction hR generalizing ys ys' with
  | nil =>
    obtain rfl := Except.ok.inj h
    obtain rfl := Except.ok.inj h'
    exact .nil
  | @cons x x' xs xs' hx _ ih =>
    rw [List.mapM_cons] at h h'
    obtain ⟨y, hy, h⟩ := of_bind_ok h
    obtain ⟨y', hy', h'⟩ := of_bind_ok h'
    obtain ⟨zs, hys, h⟩ := of_bind_ok h
    obtain ⟨zs', hys', h'⟩ := of_bind_ok h'
    obtain rfl := Except.ok.inj h
    obtain rfl := Except.ok.inj h'
    exact .cons (hf hx hy hy') (ih hys hys')

lemma isEmpty_related {α β : Type} {R : α → β → Prop} {xs : List α} {ys : List β}
    (h : List.Forall₂ R xs ys) : xs.isEmpty = ys.isEmpty := by
  cases h <;> rfl

lemma clauseOf_twins {g k : Commented} {a b : CommentedImport} (h : TwinGroup s s' g k)
    (hg : Imports.clauseOf g = .ok a) (hk : Imports.clauseOf k = .ok b) : TwinImport s s' a b := by
  obtain ⟨head, node, tail⟩ := g
  obtain ⟨head', node', tail'⟩ := k
  obtain ⟨hhead, hnode, htail⟩ := h
  cases hnode with
  | none =>
    obtain rfl := Except.ok.inj hg
    obtain rfl := Except.ok.inj hk
    exact ⟨hhead, .none, htail⟩
  | some hn =>
    obtain ⟨z, rfl, rfl⟩ := hn
    cases z with
    | importNames start path names stop =>
      obtain rfl := Except.ok.inj hg
      obtain rfl := Except.ok.inj hk
      refine ⟨hhead, .some ⟨rfl, ?_⟩, htail⟩
      simp only [Node.movedAll_eq_map]
      exact twins_map names
    | forLoop _ test => cases test <;> cases hg
    | _ => cases hg

lemma provideAll_twins {ps : Imports.Providers} {a b : CommentedImport} (h : TwinImport s s' a b) :
    Imports.provideAll ps a.clause = Imports.provideAll ps b.clause := by
  obtain ⟨head, clause, tail⟩ := a
  obtain ⟨head', clause', tail'⟩ := b
  cases h.clause with
  | none => rfl
  | some hc =>
    unfold Imports.provideAll
    dsimp only
    rw [hc.path]

lemma providers_twins {ps : Imports.Providers} {as bs : List CommentedImport}
    (h : List.Forall₂ (TwinImport s s') as bs) :
    as.foldlM (fun ps g => Imports.provideAll ps g.clause) ps =
      bs.foldlM (fun ps g => Imports.provideAll ps g.clause) ps := by
  induction h generalizing ps with
  | nil => rfl
  | cons hab _ ih =>
    rw [List.foldlM_cons, List.foldlM_cons, provideAll_twins hab]
    congr 1
    funext ps'
    exact ih

/-- The same paths with twins for names. -/
abbrev TwinFound (s s' : Shift) : List (Text × List Node) → List (Text × List Node) → Prop :=
  List.Forall₂ fun x y => x.1 = y.1 ∧ Twins s s' x.2 y.2

lemma addName_twins {path : Text} {n m : Node} {found found' : List (Text × List Node)}
    (hn : Twin s s' n m) (hf : TwinFound s s' found found') :
    TwinFound s s' (Imports.addName path n found) (Imports.addName path m found') := by
  induction hf with
  | nil => exact .cons ⟨rfl, .cons hn .nil⟩ .nil
  | @cons x y xs ys hxy hrest ih =>
    obtain ⟨hpath, hnames⟩ := hxy
    rw [Imports.addName, Imports.addName, hpath]
    split
    · exact .cons ⟨rfl, List.rel_append hnames (.cons hn .nil)⟩ hrest
    · exact .cons ⟨rfl, hnames⟩ ih

lemma resolveNames_twins {ps : Imports.Providers} {ns ms others others' : List Node}
    {found found' : List (Text × List Node)} {r r' : List (Text × List Node) × List Node}
    (hs : Twins s s' ns ms) (hf : TwinFound s s' found found') (ho : Twins s s' others others')
    (hr : Imports.resolveNames ps ns found others = .ok r)
    (hr' : Imports.resolveNames ps ms found' others' = .ok r') :
    TwinFound s s' r.1 r'.1 ∧ Twins s s' r.2 r'.2 := by
  induction hs generalizing found found' others others' with
  | nil =>
    obtain rfl := Except.ok.inj hr
    obtain rfl := Except.ok.inj hr'
    exact ⟨hf, ho⟩
  | @cons n m ns ms hn hrest ih =>
    obtain ⟨z, rfl, rfl⟩ := hn
    cases z with
    | comment => exact ih hf ho hr hr'
    | identifier start name stop =>
      simp only [Node.moved, Imports.resolveNames] at hr hr'
      have hother : Twins s s' (others ++ [Node.identifier (s.place start) name (s.place stop)])
          (others' ++ [Node.identifier (s'.place start) name (s'.place stop)]) :=
        List.rel_append ho (.cons ⟨.identifier start name stop, rfl, rfl⟩ .nil)
      split at hr
      · next path hpath =>
        rw [hpath] at hr'
        exact ih (addName_twins ⟨.identifier start [name.short] stop, rfl, rfl⟩ hf) ho hr hr'
      · next hnone =>
        split at hr'
        · next path hpath => exact absurd hpath (hnone path)
        · exact ih hf hother hr hr'
    | forLoop _ test => cases test <;> cases hr
    | _ => cases hr

lemma addHead_twins {head head' : List Node} {as bs : List CommentedImport}
    (hhead : Twins s s' head head') (h : List.Forall₂ (TwinImport s s') as bs) :
    List.Forall₂ (TwinImport s s') (Imports.addHead head as) (Imports.addHead head' bs) := by
  cases h with
  | nil => exact .nil
  | cons hab hrest => exact .cons ⟨List.rel_append hab.head hhead, hab.clause, hab.tail⟩ hrest

lemma resolved_twins {a b : ImportClause} {found found' : List (Text × List Node)}
    (hf : TwinFound s s' found found') :
    List.Forall₂ (TwinImport s s')
      (found.map fun x => (⟨[], some { a with path := x.1, names := x.2 }, []⟩ : CommentedImport))
      (found'.map fun x => (⟨[], some { b with path := x.1, names := x.2 }, []⟩ : CommentedImport)) := by
  induction hf with
  | nil => exact .nil
  | cons hxy _ ih => exact .cons ⟨.nil, .some ⟨hxy.1, hxy.2⟩, .nil⟩ ih

lemma resolve_twins {ps : Imports.Providers} {a b : CommentedImport}
    {r r' : List CommentedImport × List (Nat × Text)} (h : TwinImport s s' a b)
    (hr : Imports.resolve ps a = .ok r) (hr' : Imports.resolve ps b = .ok r') :
    List.Forall₂ (TwinImport s s') r.1 r'.1 := by
  obtain ⟨head, clause, tail⟩ := a
  obtain ⟨head', clause', tail'⟩ := b
  obtain ⟨hhead, hclause, htail⟩ := h
  cases hclause with
  | none =>
    obtain rfl := Except.ok.inj hr
    obtain rfl := Except.ok.inj hr'
    exact .cons ⟨hhead, .none, htail⟩ .nil
  | @some a b hab =>
    unfold Imports.resolve at hr hr'
    dsimp only at hr hr'
    rw [hab.path] at hr
    by_cases hpath : (!b.path.isEmpty) = true
    · rw [if_pos hpath] at hr hr'
      obtain rfl := Except.ok.inj hr
      obtain rfl := Except.ok.inj hr'
      exact .cons ⟨hhead, .some hab, htail⟩ .nil
    · rw [if_neg hpath] at hr hr'
      obtain ⟨x, hn, hr⟩ := of_bind_ok hr
      obtain ⟨x', hn', hr'⟩ := of_bind_ok hr'
      obtain ⟨hfound, hothers⟩ := resolveNames_twins hab.names .nil .nil hn hn'
      obtain ⟨found, others⟩ := x
      obtain ⟨found', others'⟩ := x'
      have hempty : others.isEmpty = others'.isEmpty := by cases hothers <;> rfl
      dsimp only at hr hr' hfound hothers
      rw [hempty] at hr
      split_ifs at hr hr' with ho
      · obtain rfl := Except.ok.inj hr
        obtain rfl := Except.ok.inj hr'
        exact addHead_twins hhead (resolved_twins hfound)
      · obtain rfl := Except.ok.inj hr
        obtain rfl := Except.ok.inj hr'
        exact List.rel_append (resolved_twins hfound)
          (.cons ⟨hhead, .some ⟨rfl, hothers⟩, htail⟩ .nil)

end Clauses

section Sorting

variable {s s' : Shift}

/-- The merged imports have the same path and twins for comments and names. -/
structure TwinMerged (s s' : Shift) (a b : Imports.Merged) : Prop where
  head : Twins s s' a.head b.head
  path : a.path = b.path
  names : Twins s s' a.names b.names
  tail : Option.Rel (Twin s s') a.tail b.tail

/-- The names are the same and have twins for comments. -/
structure TwinName (s s' : Shift) (a b : CommentedName) : Prop where
  head : Twins s s' a.head b.head
  name : a.name = b.name
  tail : Twins s s' a.tail b.tail

/-- The entries have the same path and twins for comments and names. -/
structure TwinEntry (s s' : Shift) (a b : ImportEntry) : Prop where
  head : Twins s s' a.head b.head
  path : a.path = b.path
  names : List.Forall₂ (TwinName s s') a.names b.names
  tail : Option.Rel (Twin s s') a.tail b.tail

lemma head?_twins {ns ms : List Node} (h : Twins s s' ns ms) :
    Option.Rel (Twin s s') ns.head? ms.head? := by
  cases h with
  | nil => exact .none
  | cons hn _ => exact .some hn

lemma tailText_twins (ha : s.Alike s') {o o' : Option Node} (h : Option.Rel (Twin s s') o o') :
    Imports.tailText o = Imports.tailText o' := by
  cases h with
  | none => rfl
  | some hn =>
    obtain ⟨z, rfl, rfl⟩ := hn
    cases z with
    | comment start source => exact ha.comment start source
    | forLoop _ test => cases test <;> rfl
    | _ => rfl

lemma mergeInto_twins (ha : s.Alike s') {head head' : List Node} {a b : ImportClause}
    {tail tail' : Option Node} {items items' : List Imports.Merged} (hhead : Twins s s' head head')
    (hab : TwinClause s s' a b) (htail : Option.Rel (Twin s s') tail tail')
    (hi : List.Forall₂ (TwinMerged s s') items items') :
    List.Forall₂ (TwinMerged s s') (Imports.mergeInto head a tail items)
      (Imports.mergeInto head' b tail' items') := by
  induction hi with
  | nil => exact .cons ⟨hhead, hab.path, hab.names, htail⟩ .nil
  | @cons x y xs ys hxy hrest ih =>
    rw [Imports.mergeInto, Imports.mergeInto, hab.path, hxy.path, tailText_twins ha htail,
      tailText_twins ha hxy.tail]
    split
    · exact .cons ⟨List.rel_append hxy.head hhead, rfl, List.rel_append hxy.names hab.names,
        hxy.tail⟩ hrest
    · exact .cons hxy ih

lemma mergeAll_twins (ha : s.Alike s') {as bs : List CommentedImport}
    (h : List.Forall₂ (TwinImport s s') as bs) :
    List.Forall₂ (TwinMerged s s') (Imports.mergeAll as) (Imports.mergeAll bs) := by
  refine List.rel_foldl (P := List.Forall₂ (TwinMerged s s')) (R := TwinImport s s') ?_ .nil h
  rintro items items' hi ⟨head, clause, tail⟩ ⟨head', clause', tail'⟩ ⟨hhead, hclause, htail⟩
  cases hclause with
  | none => exact hi
  | some hab => exact mergeInto_twins ha hhead hab (head?_twins htail) hi

lemma leftovers_twins {as bs : List CommentedImport} (h : List.Forall₂ (TwinImport s s') as bs) :
    Twins s s' (Imports.leftovers as) (Imports.leftovers bs) := by
  induction h with
  | nil => exact .nil
  | @cons a b as bs hab _ ih =>
    refine List.rel_append ?_ ih
    obtain ⟨head, clause, tail⟩ := a
    obtain ⟨head', clause', tail'⟩ := b
    cases hab.clause with
    | none => exact hab.head
    | some _ => exact .nil

section Sorted

variable {α β : Type} {R : α → β → Prop} {le : α → α → Bool} {le' : β → β → Bool}
  (hle : ∀ {a b a' b'}, R a a' → R b b' → le a b = le' a' b')

include hle

lemma mergeSort_related {xs : List α} {ys : List β} (h : List.Forall₂ R xs ys) :
    List.Forall₂ R (xs.mergeSort le) (ys.mergeSort le') := by
  -- both are the sorted list of the pairs of related elements
  obtain ⟨pairs, hpairs, rfl, rfl⟩ : ∃ pairs : List (α × β), (∀ z ∈ pairs, R z.1 z.2) ∧
      pairs.map Prod.fst = xs ∧ pairs.map Prod.snd = ys := by
    induction h with
    | nil => exact ⟨[], by simp, rfl, rfl⟩
    | @cons x y _ _ hxy _ ih =>
      obtain ⟨pairs, hpairs, rfl, rfl⟩ := ih
      exact ⟨(x, y) :: pairs, List.forall_mem_cons.2 ⟨hxy, hpairs⟩, rfl, rfl⟩
  have hfirst : (pairs.mergeSort fun z w => le z.1 w.1).map Prod.fst = (pairs.map Prod.fst).mergeSort le :=
    List.map_mergeSort fun _ _ _ _ => rfl
  have hsecond : (pairs.mergeSort fun z w => le z.1 w.1).map Prod.snd =
      (pairs.map Prod.snd).mergeSort le' :=
    List.map_mergeSort fun z hz w hw => hle (hpairs z hz) (hpairs w hw)
  rw [← hfirst, ← hsecond, List.forall₂_map_left_iff, List.forall₂_map_right_iff, List.forall₂_same]
  exact fun z hz => hpairs z (List.mem_mergeSort.1 hz)

end Sorted

lemma nameOf_twins {g k : Commented} {o o' : Option CommentedName} (h : TwinGroup s s' g k)
    (ho : Imports.nameOf g = .ok o) (ho' : Imports.nameOf k = .ok o') :
    Option.Rel (TwinName s s') o o' := by
  obtain ⟨head, node, tail⟩ := g
  obtain ⟨head', node', tail'⟩ := k
  obtain ⟨hhead, hnode, htail⟩ := h
  cases hnode with
  | none =>
    obtain rfl := Except.ok.inj ho
    obtain rfl := Except.ok.inj ho'
    exact .none
  | some hn =>
    obtain ⟨z, rfl, rfl⟩ := hn
    cases z with
    | identifier start name stop =>
      obtain rfl := Except.ok.inj ho
      obtain rfl := Except.ok.inj ho'
      exact .some ⟨hhead, rfl, htail⟩
    | forLoop _ test => cases test <;> cases ho
    | _ => cases ho

lemma mergeName_twins {a b : CommentedName} {as bs : List CommentedName} (hab : TwinName s s' a b)
    (h : List.Forall₂ (TwinName s s') as bs) :
    List.Forall₂ (TwinName s s') (Imports.mergeName a as) (Imports.mergeName b bs) := by
  induction h with
  | nil => exact .cons hab .nil
  | @cons x y xs ys hxy hrest ih =>
    rw [Imports.mergeName, Imports.mergeName, hab.name, hxy.name]
    split
    · exact .cons ⟨List.rel_append hxy.head hab.head, rfl, List.rel_append hxy.tail hab.tail⟩ hrest
    · exact .cons hxy ih

lemma filterMap_twins {os os' : List (Option CommentedName)}
    (h : List.Forall₂ (Option.Rel (TwinName s s')) os os') :
    List.Forall₂ (TwinName s s') (os.filterMap id) (os'.filterMap id) := by
  induction h with
  | nil => exact .nil
  | cons ho _ ih =>
    cases ho with
    | none => exact ih
    | some hab => exact .cons hab ih

lemma unlessEmpty_twins {α : Type} {R : α → α → Prop} {x y : α} {ns ms : List Node}
    (h : Twins s s' ns ms) (hxy : R x y) :
    List.Forall₂ R (if ns.isEmpty then [] else [x]) (if ms.isEmpty then [] else [y]) := by
  cases h with
  | nil => exact .nil
  | cons => exact .cons hxy .nil

lemma loose_twins {gs ks : List Commented} (h : List.Forall₂ (TwinGroup s s') gs ks) :
    Twins s s' (gs.flatMap fun g => if g.node.isNone then g.head else [])
      (ks.flatMap fun g => if g.node.isNone then g.head else []) := by
  induction h with
  | nil => exact .nil
  | @cons g k gs ks hgk _ ih =>
    refine List.rel_append ?_ ih
    obtain ⟨head, node, tail⟩ := g
    obtain ⟨head', node', tail'⟩ := k
    cases hgk.node with
    | none => exact hgk.head
    | some _ => exact .nil

lemma sortedNames_twins (ha : s.Alike s') {ns ms : List Node} {as bs : List CommentedName}
    (h : Twins s s' ns ms) (hn : Imports.sortedNames ns = .ok as)
    (hm : Imports.sortedNames ms = .ok bs) : List.Forall₂ (TwinName s s') as bs := by
  have hgroups := split_twins ha false h
  obtain ⟨xs, hx, rfl⟩ := sortedNames_eq hn
  obtain ⟨ys, hy, rfl⟩ := sortedNames_eq hm
  have hnames := filterMap_twins (mapM_related hgroups nameOf_twins hx hy)
  refine List.rel_append (mergeSort_related ?_ ?_) ?_
  · intro a b a' b' hab hab'
    rw [hab.name, hab'.name]
  · exact List.rel_foldl (P := List.Forall₂ (TwinName s s')) (R := TwinName s s')
      (fun _ _ hi _ _ hab => mergeName_twins hab hi) .nil hnames
  · have hrest := loose_twins hgroups
    exact unlessEmpty_twins hrest ⟨hrest, rfl, .nil⟩

lemma entryOf_twins (ha : s.Alike s') {a b : Imports.Merged} {e e' : ImportEntry}
    (h : TwinMerged s s' a b) (he : Imports.entryOf a = .ok e) (he' : Imports.entryOf b = .ok e') :
    TwinEntry s s' e e' := by
  obtain ⟨xs, hx, rfl⟩ := entryOf_eq he
  obtain ⟨ys, hy, rfl⟩ := entryOf_eq he'
  exact ⟨h.head, congrArg some h.path, sortedNames_twins ha h.names hx hy, h.tail⟩

lemma rank_twins {a b : Imports.Merged} {x y : ImportPath.Group × Imports.Merged}
    (h : TwinMerged s s' a b)
    (hx : (do return (← ImportPath.group a.path, a) : Except LayoutFault _) = .ok x)
    (hy : (do return (← ImportPath.group b.path, b) : Except LayoutFault _) = .ok y) :
    x.1 = y.1 ∧ TwinMerged s s' x.2 y.2 := by
  obtain ⟨hgroup, rfl⟩ := rank_eq hx
  obtain ⟨hgroup', rfl⟩ := rank_eq hy
  rw [h.path] at hgroup
  exact ⟨Except.ok.inj (hgroup.symm.trans hgroup'), h⟩

lemma sortedEntries_twins (ha : s.Alike s') {as bs : List CommentedImport}
    {es es' : List ImportEntry} (h : List.Forall₂ (TwinImport s s') as bs)
    (he : Imports.sortedEntries as = .ok es) (he' : Imports.sortedEntries bs = .ok es') :
    List.Forall₂ (TwinEntry s s') es es' := by
  obtain ⟨xs, us, hx, hu, rfl⟩ := sortedEntries_eq he
  obtain ⟨ys, vs, hy, hv, rfl⟩ := sortedEntries_eq he'
  have hranked := mapM_related (mergeAll_twins ha h) rank_twins hx hy
  have hsorted : List.Forall₂ (fun a b => a.1 = b.1 ∧ TwinMerged s s' a.2 b.2)
      (xs.mergeSort Imports.comesBefore) (ys.mergeSort Imports.comesBefore) := by
    refine mergeSort_related ?_ hranked
    intro a b a' b' hab hab'
    rw [Imports.comesBefore, Imports.comesBefore, hab.1, hab'.1, hab.2.path, hab'.2.path]
  refine List.rel_append (mapM_related hsorted ?_ hu hv) ?_
  · exact fun hab ho ho' => entryOf_twins ha hab.2 ho ho'
  · have hrest := leftovers_twins h
    exact unlessEmpty_twins hrest ⟨hrest, rfl, .nil, .none⟩

end Sorting

section Plans

variable {s s' : Shift} (ha : s.Alike s')

include ha

lemma nameLines_twins {a b : CommentedName} (h : TwinName s s' a b) : a.lines = b.lines := by
  have hlines {ns ms : List Node} (h : Twins s s' ns ms) :
      (ns.map fun n => NameLine.comment n.commentText) =
        ms.map fun n => NameLine.comment n.commentText := by
    have htexts := congrArg (List.map NameLine.comment) (h.commentTexts ha)
    rwa [List.map_map, List.map_map] at htexts
  have hfirst : a.tail.head?.map Node.commentText = b.tail.head?.map Node.commentText := by
    rw [← List.head?_map, ← List.head?_map, h.tail.commentTexts ha]
  unfold CommentedName.lines
  rw [h.name, hlines h.head, hfirst, List.map_tail, List.map_tail, hlines h.tail]

lemma tail_twins {o o' : Option Node} (h : Option.Rel (Twin s s') o o') :
    o.map Node.commentText = o'.map Node.commentText := by
  cases h with
  | none => rfl
  | some hn => exact congrArg some (hn.commentText ha)

lemma names_twins {as bs : List CommentedName} (h : List.Forall₂ (TwinName s s') as bs) :
    as.flatMap CommentedName.lines = bs.flatMap CommentedName.lines := by
  induction h with
  | nil => rfl
  | cons hab _ ih => rw [List.flatMap_cons, List.flatMap_cons, nameLines_twins ha hab, ih]

lemma entryPlan_twins {e e' : ImportEntry} (h : TwinEntry s s' e e') : e.plan = e'.plan := by
  unfold ImportEntry.plan
  rw [h.head.commentTexts ha, h.path, names_twins ha h.names, tail_twins ha h.tail]

lemma entryPlans_twins {es es' : List ImportEntry} (h : List.Forall₂ (TwinEntry s s') es es') :
    ((es.filter (·.path.isSome)).map ImportEntry.plan) =
      (es'.filter (·.path.isSome)).map ImportEntry.plan := by
  induction h with
  | nil => rfl
  | @cons e e' es es' hab _ ih =>
    rw [List.filter_cons, List.filter_cons, hab.path]
    split
    · rw [List.map_cons, List.map_cons, entryPlan_twins ha hab, ih]
    · exact ih

lemma looseComments_twins {es es' : List ImportEntry} (h : List.Forall₂ (TwinEntry s s') es es') :
    ((es.filter (·.path.isNone)).flatMap (·.head.map Node.commentText)) =
      (es'.filter (·.path.isNone)).flatMap (·.head.map Node.commentText) := by
  induction h with
  | nil => rfl
  | @cons e e' es es' hab _ ih =>
    rw [List.filter_cons, List.filter_cons, hab.path]
    split
    · rw [List.flatMap_cons, List.flatMap_cons, hab.head.commentTexts ha, ih]
    · exact ih

lemma blockPlan_twins {a b : ImportBlock} (hhead : Twins s s' a.head b.head)
    (h : List.Forall₂ (TwinEntry s s') a.entries b.entries) (gap : Bool) : a.plan gap = b.plan gap := by
  unfold ImportBlock.plan
  rw [hhead.commentTexts ha, entryPlans_twins ha h, looseComments_twins ha h]

omit ha in
lemma listHeads_twins {gs ks : List Commented} (h : List.Forall₂ (TwinGroup s s') gs ks) :
    Twins s s' (Imports.listHeads gs) (Imports.listHeads ks) := by
  induction h with
  | nil => exact .nil
  | @cons g k gs ks hgk _ ih =>
    refine List.rel_append ?_ ih
    obtain ⟨head, node, tail⟩ := g
    obtain ⟨head', node', tail'⟩ := k
    obtain ⟨hhead, hnode, -⟩ := hgk
    cases hnode with
    | none => exact .nil
    | some hn =>
      obtain ⟨z, rfl, rfl⟩ := hn
      cases z with
      | importList => exact hhead
      | forLoop _ test => cases test <;> exact .nil
      | _ => exact .nil

omit ha in
lemma TwinGroup.any_node {g k : Commented} (h : TwinGroup s s' g k) {p : Node → Bool}
    (hp : ∀ (s : Shift) (n : Node), p (n.moved s) = p n) : g.node.any p = k.node.any p := by
  obtain ⟨head, node, tail⟩ := g
  obtain ⟨head', node', tail'⟩ := k
  obtain ⟨-, hnode, -⟩ := h
  cases hnode with
  | none => rfl
  | some hn =>
    obtain ⟨z, rfl, rfl⟩ := hn
    rw [Option.any_some, Option.any_some, hp, hp]

omit ha in
lemma findIdx_twins {gs ks : List Commented} (h : List.Forall₂ (TwinGroup s s') gs ks)
    {p : Node → Bool} (hp : ∀ (s : Shift) (n : Node), p (n.moved s) = p n) :
    (gs.findIdx? fun g => g.node.any p) = ks.findIdx? fun g => g.node.any p := by
  induction h with
  | nil => rfl
  | @cons g k gs ks hgk _ ih => rw [List.findIdx?_cons, List.findIdx?_cons, hgk.any_node hp, ih]

omit ha in
lemma isDefinition_moved (s : Shift) (n : Node) : (n.moved s).isDefinition = n.isDefinition := by
  cases n with
  | forLoop _ test => cases test <;> rfl
  | _ => rfl

omit ha in
lemma isImporting_moved (s : Shift) (n : Node) :
    File.isImporting (n.moved s) = File.isImporting n := by
  cases n with
  | forLoop _ test => cases test <;> rfl
  | _ => rfl

omit ha in
lemma place_twins {gs ks : List Commented} (h : List.Forall₂ (TwinGroup s s') gs ks)
    {es es' : List ImportEntry} (he : List.Forall₂ (TwinEntry s s') es es') :
    Imports.place gs es = Imports.place ks es' := by
  unfold Imports.place
  dsimp only
  rw [findIdx_twins h isDefinition_moved, findIdx_twins h Node.isImport_moved, isEmpty_related he,
    findIdx_twins h]
  intro s n
  cases n with
  | forLoop _ test => cases test <;> rfl
  | _ => rfl

/-- The import blocks of twins stand at the same place and have the same plan. -/
lemma consolidate_twins {gs ks : List Commented} (h : List.Forall₂ (TwinGroup s s') gs ks)
    {a b : Imports.Consolidated} (steps : Consolidation gs a) (steps' : Consolidation ks b) :
    a.index = b.index ∧ ∀ gap, a.block.plan gap = b.block.plan gap := by
  have hgathered := mapM_related (List.rel_flatMap h fun _ _ hgk => gather_twins ha hgk)
    clauseOf_twins steps.gathers steps'.gathers
  have hproviders : steps.providers = steps'.providers := by
    have hp := steps.provides
    rw [providers_twins hgathered, steps'.provides] at hp
    exact (Except.ok.inj hp).symm
  have hresolves := steps.resolves
  rw [hproviders] at hresolves
  have hresolved := mapM_related hgathered resolve_twins hresolves steps'.resolves
  have hentries := sortedEntries_twins ha (List.rel_flatMap hresolved fun _ _ hr => hr)
    steps.sorts steps'.sorts
  have hheads := listHeads_twins h
  have hempty : a.block.isEmpty = b.block.isEmpty := by
    rw [steps.block, steps'.block]
    unfold ImportBlock.isEmpty
    rw [isEmpty_related hheads, isEmpty_related hentries]
  constructor
  · rw [steps.index, steps'.index, hempty, place_twins h hentries]
  · intro gap
    rw [steps.block, steps'.block]
    exact blockPlan_twins ha hheads hentries gap

lemma needsGap_twins {o o' p p' : Option Node} (h : Option.Rel (Twin s s') o o')
    (h' : Option.Rel (Twin s s') p p') : File.needsGap o p = File.needsGap o' p' := by
  cases h with
  | none => rfl
  | some hn =>
    cases h' with
    | none =>
      obtain ⟨z, rfl, rfl⟩ := hn
      cases z with
      | forLoop _ test => cases test <;> rfl
      | _ => rfl
    | some hm =>
      have hstep := hm.step ha hn
      obtain ⟨z, rfl, rfl⟩ := hn
      obtain ⟨y, rfl, rfl⟩ := hm
      cases z with
      | constantDef start isPublic name value stop =>
        cases y with
        | constantDef start' isPublic' name' value' stop' =>
          change clip ((s.place start').line - (s.place stop).line) =
            clip ((s'.place start').line - (s'.place stop).line) at hstep
          unfold clip at hstep
          simp only [Node.moved, File.needsGap]
          congr 2
          exact decide_eq_decide.2 (by omega)
        | forLoop _ test => cases test <;> rfl
        | _ => rfl
      | forLoop _ test => cases test <;> rfl
      | _ => rfl

lemma groupPlans_twins {gs ks : List Commented} (h : List.Forall₂ (TwinGroup s s') gs ks)
    {a b : Imports.Consolidated} (hindex : a.index = b.index)
    (hblock : ∀ gap, a.block.plan gap = b.block.plan gap) (index : Nat)
    {previous previous' : Option (Option Node)}
    (hp : Option.Rel (Option.Rel (Twin s s')) previous previous') :
    groupPlans a index previous gs = groupPlans b index previous' ks := by
  induction h generalizing index previous previous' with
  | nil => rfl
  | @cons g k gs ks hgk hrest ih =>
    have hgap : (previous.any fun node => File.needsGap node g.node) =
        previous'.any fun node => File.needsGap node k.node := by
      cases hp with
      | none => rfl
      | some hn => exact needsGap_twins ha hn hgk.node
    have hmember : (g.node.map (memberPlan g.tail)).getD .nothing =
        (k.node.map (memberPlan k.tail)).getD .nothing := by
      obtain ⟨head, node, tail⟩ := g
      obtain ⟨head', node', tail'⟩ := k
      obtain ⟨-, hnode, htail⟩ := hgk
      obtain ⟨zs, rfl, rfl⟩ := htail.exists_map
      cases hnode with
      | none => rfl
      | some hn =>
        obtain ⟨z, rfl, rfl⟩ := hn
        exact memberPlan_alike ha zs z
    rw [groupPlans, groupPlans]
    dsimp only
    rw [hgk.any_node isImporting_moved, hindex, hgap, hblock, ih _ hp, ih _ (.some hgk.node),
      hgk.head.commentTexts ha, hmember]

/-- Files of twins have the same plan. -/
theorem filePlan_alike {nodes : List Node} {a b : Imports.Consolidated}
    (hok : Imports.consolidate (Commented.split true (nodes.map (Node.moved s))) = .ok a)
    (steps : Consolidation (Commented.split true (nodes.map (Node.moved s))) a)
    (hok' : Imports.consolidate (Commented.split true (nodes.map (Node.moved s'))) = .ok b)
    (steps' : Consolidation (Commented.split true (nodes.map (Node.moved s'))) b) :
    filePlan (nodes.map (Node.moved s)) = filePlan (nodes.map (Node.moved s')) := by
  have hsplit := split_twins ha true (twins_map nodes)
  obtain ⟨hindex, hblock⟩ := consolidate_twins ha hsplit steps steps'
  unfold filePlan
  rw [hok, hok']
  exact groupPlans_twins ha hsplit hindex hblock 0 .none

end Plans

end DpLang
