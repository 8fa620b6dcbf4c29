import DpLang.Proofs.KeptComments

/-!
# Groups of nodes and comments

The groups of a list one after the other are the list, and none of them is empty. Comments stand in
front of the node to which they belong, and behind it only if it is a constant, an import or an
identifier. No other grouping has these properties and leaves out no comment that belongs to a group, so
that `split_eq_iff` determines the groups of a list.
-/

namespace DpLang

section Tails

/-- How many lines below a node does the next one start? -/
def Node.linesTo (node next : Node) : Int := next.start.line - node.stop.line

/-- The comments that may stand behind a node: the one on the line of a constant or an import; behind an
identifier the one on its line and those below it, each a line further. -/
inductive Commented.TailBelongs : Option Node → List Node → Prop where
  | empty (node : Option Node) : TailBelongs node []
  | one {node comment : Node} (kind : node.kind = .constantDef ∨ node.kind = .importNames)
      (line : node.linesTo comment = 0) : TailBelongs (some node) [comment]
  | run {node first : Node} {below : List Node} (kind : node.kind = .identifier)
      (line : node.linesTo first = 0) (step : (first :: below).IsChain fun a b => a.linesTo b = 1) :
      TailBelongs (some node) (first :: below)

/-- Nothing of what follows belongs behind a node any more. -/
structure Commented.TailEnds (node : Node) (tail rest : List Node) : Prop where
  /-- The comment on the line of the node is in the tail. -/
  line : node.kind = .constantDef ∨ node.kind = .importNames ∨ node.kind = .identifier → tail = [] →
    ∀ next ∈ rest.head?, next.isComment = true → node.linesTo next ≠ 0
  /-- The comment on the line below the tail of an identifier is in the tail. -/
  below : node.kind = .identifier → ∀ last ∈ tail.getLast?, ∀ next ∈ rest.head?,
    next.isComment = true → last.linesTo next ≠ 1

variable {node : Node} {tail rest nodes : List Node}

lemma commentsBelow_append (h : (node :: tail).IsChain fun a b => a.linesTo b = 1)
    (hcomments : ∀ n ∈ tail, n.isComment = true)
    (hends : ∀ last ∈ (node :: tail).getLast?, ∀ next ∈ rest.head?, next.isComment = true →
      last.linesTo next ≠ 1) :
    Commented.commentsBelow node (tail ++ rest) = tail := by
  induction tail generalizing node with
  | nil =>
    cases rest with
    | nil => rfl
    | cons next rest =>
      have hnext := hends node rfl next rfl
      rw [List.nil_append, Commented.commentsBelow]
      refine if_neg fun hboth => ?_
      rw [Bool.and_eq_true, decide_eq_true_eq] at hboth
      exact hnext hboth.1 hboth.2
  | cons first tail ih =>
    obtain ⟨hstep, hchain⟩ := List.isChain_cons_cons.1 h
    obtain ⟨hfirst, hcomments⟩ := List.forall_mem_cons.1 hcomments
    have hstep : first.start.line - node.stop.line = 1 := hstep
    rw [List.getLast?_cons_cons] at hends
    rw [List.cons_append, Commented.commentsBelow, if_pos (by simp [hfirst, hstep]),
      ih hchain hcomments hends]

lemma commentsBelow_chain (node : Node) (nodes : List Node) :
    (node :: Commented.commentsBelow node nodes).IsChain fun a b => a.linesTo b = 1 := by
  induction nodes generalizing node with
  | nil => exact .singleton node
  | cons next rest ih =>
    rw [Commented.commentsBelow]
    split
    · next h =>
      rw [Bool.and_eq_true, decide_eq_true_eq] at h
      exact .cons_cons h.2 (ih next)
    · exact .singleton node

lemma commentsBelow_ends (node : Node) (nodes : List Node) :
    ∀ last ∈ (node :: Commented.commentsBelow node nodes).getLast?,
      ∀ next ∈ (nodes.drop (Commented.commentsBelow node nodes).length).head?,
        next.isComment = true → last.linesTo next ≠ 1 := by
  induction nodes generalizing node with
  | nil => simp [Commented.commentsBelow]
  | cons next rest ih =>
    rw [Commented.commentsBelow]
    split
    · rw [List.getLast?_cons_cons, List.length_cons, List.drop_succ_cons]
      exact ih next
    · next hno =>
      intro last hlast other hother hcomment hstep
      obtain rfl : node = last := Option.some.inj hlast
      obtain rfl : next = other := Option.some.inj hother
      exact hno (by rw [hcomment, Bool.true_and, decide_eq_true_eq]; exact hstep)

lemma tailOf_cons (node next : Node) (rest : List Node) :
    Commented.tailOf node (next :: rest) =
      if next.isComment = true ∧ node.linesTo next = 0 then
        if node.kind = .constantDef ∨ node.kind = .importNames then [next]
        else if node.kind = .identifier then next :: Commented.commentsBelow next rest else []
      else [] := by
  have hcond : (next.isComment && decide (next.start.line - node.stop.line = 0)) = true ↔
      next.isComment = true ∧ node.linesTo next = 0 := by
    rw [Bool.and_eq_true, decide_eq_true_eq, Node.linesTo]
  unfold Commented.tailOf
  dsimp only
  by_cases h : next.isComment = true ∧ node.linesTo next = 0
  · rw [if_pos (hcond.2 h), if_pos h]
    cases node with
    | prefixed start op operand stop => cases op <;> simp [Node.kind, PrefixOp.kind]
    | literal start kind source stop => cases kind <;> simp [Node.kind, LiteralKind.kind]
    | jump start kind stop => cases kind <;> simp [Node.kind, Jump.kind]
    | _ => simp [Node.kind]
  · rw [if_neg (fun hboth => h (hcond.1 hboth)), if_neg h]

lemma tailOf_belongs (node : Node) (nodes : List Node) :
    Commented.TailBelongs (some node) (Commented.tailOf node nodes) := by
  cases nodes with
  | nil => exact .empty _
  | cons next rest =>
    rw [tailOf_cons]
    split
    · next h =>
      split
      · next hkind => exact .one hkind h.2
      · split
        · next hkind => exact .run hkind h.2 (commentsBelow_chain next rest)
        · exact .empty _
    · exact .empty _

lemma tailOf_ends (node : Node) (nodes : List Node) :
    Commented.TailEnds node (Commented.tailOf node nodes)
      (nodes.drop (Commented.tailOf node nodes).length) := by
  cases nodes with
  | nil => exact ⟨by simp, by simp⟩
  | cons next rest =>
    rw [tailOf_cons]
    split
    · next h =>
      split
      · next hkind =>
        refine ⟨fun _ hnil => absurd hnil (List.cons_ne_nil _ _), fun hidentifier => ?_⟩
        rw [hidentifier] at hkind
        rcases hkind with hkind | hkind
        · cases hkind
        · cases hkind
      · next hone =>
        split
        · refine ⟨fun _ hnil => absurd hnil (List.cons_ne_nil _ _), fun _ => ?_⟩
          rw [List.length_cons, List.drop_succ_cons]
          exact commentsBelow_ends next rest
        · next hrun =>
          refine ⟨fun hkind _ => ?_, fun hidentifier => absurd hidentifier hrun⟩
          rcases hkind with hkind | hkind | hkind
          · exact absurd (.inl hkind) hone
          · exact absurd (.inr hkind) hone
          · exact absurd hkind hrun
    · next hno =>
      refine ⟨fun _ _ other hother hcomment hline => ?_, by simp⟩
      obtain rfl : next = other := Option.some.inj hother
      exact hno ⟨hcomment, hline⟩

lemma tailOf_append (hbelongs : Commented.TailBelongs (some node) tail)
    (hcomments : ∀ n ∈ tail, n.isComment = true) (hends : Commented.TailEnds node tail rest) :
    Commented.tailOf node (tail ++ rest) = tail := by
  cases hbelongs with
  | empty =>
    cases rest with
    | nil => rfl
    | cons next rest =>
      rw [List.nil_append, tailOf_cons]
      split
      · next h =>
        have hkind : ¬ (node.kind = .constantDef ∨ node.kind = .importNames ∨ node.kind = .identifier) :=
          fun hkind => hends.line hkind rfl next rfl h.1 h.2
        rw [if_neg fun hone => hkind (hone.imp_right .inl), if_neg fun hrun => hkind (.inr (.inr hrun))]
      · rfl
  | @one _ comment hkind hline =>
    rw [List.cons_append, tailOf_cons, if_pos ⟨hcomments comment (by simp), hline⟩, if_pos hkind]
  | @run _ first below hkind hline hstep =>
    obtain ⟨hfirst, hbelow⟩ := List.forall_mem_cons.1 hcomments
    rw [List.cons_append, tailOf_cons, if_pos ⟨hfirst, hline⟩, if_neg (by simp [hkind]), if_pos hkind,
      commentsBelow_append hstep hbelow (hends.below hkind)]

end Tails

section Groups

/-- A group that stands in front of `rest`. -/
structure Commented.Grouped (onGap : Bool) (group : Commented) (rest : List Node) : Prop where
  nonempty : group.nodes ≠ []
  head : ∀ n ∈ group.head, n.isComment = true
  node : ∀ n ∈ group.node, n.isComment = false
  tail : ∀ n ∈ group.tail, n.isComment = true
  belongs : TailBelongs group.node group.tail
  /-- No blank line stands among the comments in front of the node, or between them and the node. -/
  close : onGap = true → (group.head ++ group.node.toList).IsChain fun a b => a.linesTo b < 2
  /-- Comments belong to no node only in front of a blank line or at the end. -/
  lone : group.node = none →
    rest = [] ∨ onGap = true ∧ ∀ last ∈ group.head.getLast?, ∀ next ∈ rest.head?, 2 ≤ last.linesTo next
  ends : ∀ n ∈ group.node, TailEnds n group.tail rest

variable {onGap : Bool} {head nodes : List Node} {node : Node} {groups : List Commented}

lemma splitAfter_skip (head : List Node) (skipped : Nat) (nodes : List Node) :
    Commented.splitAfter onGap head skipped nodes =
      Commented.splitAfter onGap head 0 (nodes.drop skipped) := by
  induction nodes generalizing skipped with
  | nil => rw [List.drop_nil, Commented.splitAfter, Commented.splitAfter]
  | cons node rest ih =>
    cases skipped with
    | zero => rfl
    | succ skipped =>
      rw [Commented.splitAfter, List.drop_succ_cons]
      exact ih skipped

lemma gapBehind_iff : Commented.gapBehind node nodes = true ↔ ∃ next ∈ nodes.head?, 2 ≤ node.linesTo next := by
  cases nodes with
  | nil => simp [Commented.gapBehind]
  | cons next rest => simp [Commented.gapBehind, Node.linesTo]

lemma splitAfter_comment (hc : node.isComment = true) (head rest : List Node) :
    Commented.splitAfter onGap head 0 (node :: rest) =
      if onGap = true ∧ Commented.gapBehind node rest = true then
        { head := head ++ [node] } :: Commented.splitAfter onGap [] 0 rest
      else Commented.splitAfter onGap (head ++ [node]) 0 rest := by
  rw [Commented.splitAfter]
  dsimp only
  rw [if_pos hc]
  simp only [Bool.and_eq_true]

/-- A blank line behind a node changes nothing, since no comment behind it would be its tail. -/
lemma splitAfter_node (hc : node.isComment = false) (head rest : List Node) :
    Commented.splitAfter onGap head 0 (node :: rest) =
      { head, node := some node, tail := Commented.tailOf node rest } ::
        Commented.splitAfter onGap [] 0 (rest.drop (Commented.tailOf node rest).length) := by
  have htail : (if (onGap && Commented.gapBehind node rest) = true then [] else Commented.tailOf node rest) =
      Commented.tailOf node rest := by
    split
    · next hgap =>
      obtain ⟨next, hnext, hlines⟩ := gapBehind_iff.1 (Bool.and_eq_true_iff.1 hgap).2
      cases rest with
      | nil => cases hnext
      | cons other rest =>
        obtain rfl : other = next := Option.some.inj hnext
        rw [tailOf_cons, if_neg fun h => by omega]
    · rfl
  rw [Commented.splitAfter]
  dsimp only
  rw [hc, if_neg Bool.false_ne_true, htail, splitAfter_skip]

lemma splitAfter_append {more : List Node} (hcomments : ∀ n ∈ more, n.isComment = true)
    (hclose : onGap = true → (more ++ nodes.take 1).IsChain fun a b => a.linesTo b < 2) (head : List Node) :
    Commented.splitAfter onGap head 0 (more ++ nodes) =
      Commented.splitAfter onGap (head ++ more) 0 nodes := by
  induction more generalizing head with
  | nil => rw [List.nil_append, List.append_nil]
  | cons first more ih =>
    obtain ⟨hfirst, hcomments⟩ := List.forall_mem_cons.1 hcomments
    have hnogap : ¬ (onGap = true ∧ Commented.gapBehind first (more ++ nodes) = true) := by
      rintro ⟨hgap, hbehind⟩
      obtain ⟨next, hnext, hlines⟩ := gapBehind_iff.1 hbehind
      have hnear : first.linesTo next < 2 := by
        refine (List.isChain_cons.1 (hclose hgap)).1 next ?_
        cases more with
        | nil => simpa [List.head?_take] using hnext
        | cons second more => exact hnext
      omega
    have hrest : onGap = true → (more ++ nodes.take 1).IsChain fun a b => a.linesTo b < 2 :=
      fun hgap => (List.isChain_cons.1 (hclose hgap)).2
    rw [List.cons_append, splitAfter_comment hfirst, if_neg hnogap, ih hcomments hrest, List.append_assoc,
      List.singleton_append]

/-- Each of the groups stands in front of those behind it. -/
def AllGrouped (onGap : Bool) (groups : List Commented) : Prop :=
  ∀ before group after, groups = before ++ group :: after →
    group.Grouped onGap (after.flatMap Commented.nodes)

lemma allGrouped_nil : AllGrouped onGap [] := by
  intro before group after heq
  simp at heq

lemma AllGrouped.cons {first : Commented} (h : AllGrouped onGap groups)
    (hfirst : first.Grouped onGap (groups.flatMap Commented.nodes)) :
    AllGrouped onGap (first :: groups) := by
  intro before group after heq
  cases before with
  | nil =>
    obtain ⟨rfl, rfl⟩ := List.cons.inj heq
    exact hfirst
  | cons _ before => exact h before group after (List.cons.inj heq).2

lemma grouped_comments (hne : head ≠ []) (hhead : ∀ n ∈ head, n.isComment = true)
    (hclose : onGap = true → head.IsChain fun a b => a.linesTo b < 2) {rest : List Node}
    (hlone : rest = [] ∨ onGap = true ∧
      ∀ last ∈ head.getLast?, ∀ next ∈ rest.head?, 2 ≤ last.linesTo next) :
    Commented.Grouped onGap { head } rest where
  nonempty := by simpa [Commented.nodes] using hne
  head := hhead
  node := by simp
  tail := by simp
  belongs := .empty none
  close := by simpa using hclose
  lone := fun _ => hlone
  ends := by simp

lemma grouped_node (hc : node.isComment = false) (hhead : ∀ n ∈ head, n.isComment = true)
    (hclose : onGap = true → (head ++ [node]).IsChain fun a b => a.linesTo b < 2) (rest : List Node) :
    Commented.Grouped onGap { head, node := some node, tail := Commented.tailOf node rest }
      (rest.drop (Commented.tailOf node rest).length) where
  nonempty := by simp [Commented.nodes]
  head := hhead
  node := by simpa using hc
  tail := tailOf_isComment node rest
  belongs := tailOf_belongs node rest
  close := by simpa using hclose
  lone := fun hnode => by cases hnode
  ends := by simpa using tailOf_ends node rest

lemma splitAfter_grouped (hhead : ∀ n ∈ head, n.isComment = true)
    (hclose : onGap = true → (head ++ nodes.take 1).IsChain fun a b => a.linesTo b < 2) :
    AllGrouped onGap (Commented.splitAfter onGap head 0 nodes) := by
  -- A tail is skipped at once, so the induction is on the number of nodes.
  induction hlength : nodes.length using Nat.strong_induction_on generalizing head nodes with
  | _ length ih =>
    cases nodes with
    | nil =>
      rw [List.take_nil, List.append_nil] at hclose
      rw [Commented.splitAfter]
      split
      · exact allGrouped_nil
      · next hne => exact allGrouped_nil.cons (grouped_comments (by simpa using hne) hhead hclose (.inl rfl))
    | cons node rest =>
      rw [List.take_succ_cons, List.take_zero] at hclose
      cases hc : node.isComment with
      | true =>
        have hmore : ∀ n ∈ head ++ [node], n.isComment = true :=
          mem_append_of hhead (List.forall_mem_singleton.2 hc)
        rw [splitAfter_comment hc]
        split
        · next hgap =>
          refine (ih rest.length (by rw [← hlength]; simp) (by simp) (fun _ => by cases rest <;> simp) rfl).cons
            (grouped_comments (by simp) hmore hclose (.inr ⟨hgap.1, fun last hlast next hnext => ?_⟩))
          rw [splitAfter_nodes, List.nil_append, List.drop_zero] at hnext
          obtain ⟨other, hother, hlines⟩ := gapBehind_iff.1 hgap.2
          rw [List.getLast?_append, List.getLast?_singleton] at hlast
          obtain rfl : node = last := Option.some.inj hlast
          obtain rfl : other = next := Option.some.inj (hother.symm.trans hnext)
          exact hlines
        · next hno =>
          refine ih rest.length (by rw [← hlength]; simp) hmore (fun hgap => ?_) rfl
          rw [List.isChain_append]
          refine ⟨hclose hgap, by cases rest <;> simp, fun last hlast next hnext => ?_⟩
          rw [List.getLast?_append, List.getLast?_singleton] at hlast
          obtain rfl : node = last := Option.some.inj hlast
          have hnext : next ∈ rest.head? := by simpa [List.head?_take] using hnext
          by_contra hfar
          exact hno ⟨hgap, gapBehind_iff.2 ⟨next, hnext, by omega⟩⟩
      | false =>
        have hshort : (rest.drop (Commented.tailOf node rest).length).length < length := by
          rw [← hlength, List.length_drop, List.length_cons]
          omega
        rw [splitAfter_node hc]
        refine (ih _ hshort (by simp) (fun _ => ?_) rfl).cons ?_
        · cases rest.drop (Commented.tailOf node rest).length <;> simp
        · rw [splitAfter_nodes, List.nil_append, List.drop_zero]
          exact grouped_node hc hhead hclose rest

lemma splitAfter_of_grouped {group : Commented} {rest : List Node} (h : group.Grouped onGap rest) :
    Commented.splitAfter onGap [] 0 (group.nodes ++ rest) =
      group :: Commented.splitAfter onGap [] 0 rest := by
  obtain ⟨head, node, tail⟩ := group
  cases node with
  | some node =>
    have hnodes : Commented.nodes ⟨head, some node, tail⟩ ++ rest = head ++ node :: (tail ++ rest) := by
      simp [Commented.nodes]
    rw [hnodes, splitAfter_append h.head (by simpa using h.close), List.nil_append,
      splitAfter_node (h.node node rfl), tailOf_append h.belongs h.tail (h.ends node rfl), List.drop_left]
  | none =>
    have htail : tail = [] := by
      cases h.belongs
      rfl
    have hnonempty : head ≠ [] := by
      have hne := h.nonempty
      rw [htail] at hne
      simpa [Commented.nodes] using hne
    subst htail
    -- The last comment is the one behind which the group ends.
    obtain ⟨front, last, rfl⟩ : ∃ front last, head = front ++ [last] :=
      ⟨head.dropLast, head.getLast hnonempty, (List.dropLast_append_getLast hnonempty).symm⟩
    have hlast : last.isComment = true := h.head last (by simp)
    have hfront : ∀ n ∈ front, n.isComment = true := fun n hn => h.head n (List.mem_append_left _ hn)
    have hnodes : Commented.nodes ⟨front ++ [last], none, []⟩ ++ rest = front ++ last :: rest := by
      simp [Commented.nodes]
    rw [hnodes, splitAfter_append hfront (by simpa using h.close), List.nil_append,
      splitAfter_comment hlast]
    cases rest with
    | nil => simp [Commented.gapBehind, Commented.splitAfter]
    | cons next rest =>
      rcases h.lone rfl with hnil | ⟨hgap, hlines⟩
      · cases hnil
      · have hfar : 2 ≤ last.linesTo next := hlines last (by simp) next rfl
        rw [if_pos ⟨hgap, gapBehind_iff.2 ⟨next, rfl, hfar⟩⟩]

/-- The groups of a list are the list, and each group is one in front of those behind it. This is so of
no other groups. -/
theorem split_eq_iff (onGap : Bool) (nodes : List Node) (groups : List Commented) :
    Commented.split onGap nodes = groups ↔
      groups.flatMap Commented.nodes = nodes ∧
        ∀ before group after, groups = before ++ group :: after →
          group.Grouped onGap (after.flatMap Commented.nodes) := by
  constructor
  · rintro rfl
    refine ⟨split_nodes onGap nodes, splitAfter_grouped (by simp) fun _ => ?_⟩
    cases nodes <;> simp
  · rintro ⟨rfl, hgrouped⟩
    induction groups with
    | nil => rfl
    | cons group groups ih =>
      have hrest := ih fun before other after heq =>
        hgrouped (group :: before) other after (by rw [heq, List.cons_append])
      rw [Commented.split] at hrest
      rw [Commented.split, List.flatMap_cons, splitAfter_of_grouped (hgrouped [] group groups rfl), hrest]

end Groups

end DpLang
