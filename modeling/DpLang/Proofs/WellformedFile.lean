import DpLang.Proofs.FileLayout
import DpLang.Proofs.ReadingFile

/-!
# Plans of files that were read

The plan of a file that was read is well-formed. The import block is put together from the comments,
paths and names of the file.
-/

namespace DpLang

section Imports

/-- Comments, paths and names as they are read. -/
def Vocabulary.lexical : Vocabulary where
  comment := Parser.IsCommentNode
  path := IsPathText
  name := Parser.IsImportName
  text := IsNameText
  isComment := by
    rintro n ⟨start, source, rfl, -⟩
    rfl
  isImportPath := Parser.isImportPath_of_isPathText
  name_cases {n} h := by
    cases n with
    | comment start source => exact .inl ⟨start, source, rfl, h⟩
    | identifier start own stop =>
      obtain ⟨words, hwords, hown⟩ := id h
      have hlast : own.getLast? = words.getLast? := by
        obtain ⟨word, rest, rfl⟩ := List.exists_cons_of_ne_nil hwords.1
        rcases hown with rfl | rfl
        · rfl
        · rw [List.getLast?_cons_cons]
      have hshort : IsLexeme .word own.short := by
        rw [QualifiedName.short, hlast, List.getLast?_eq_some_getLast hwords.1]
        exact hwords.2 _ (List.getLast_mem hwords.1)
      refine .inr ⟨start, own, stop, rfl, ⟨own, h, rfl⟩, [own.short], ?_, .inl rfl⟩
      exact ⟨by simp, by simpa using hshort⟩
    | _ => exact h.elim

lemma lexical_named : Vocabulary.lexical.Named := by
  rintro ⟨name, hname, htext⟩
  exact join_ne_nil (List.isEmpty_eq_false_iff.1 (Parser.isQualifiedName_short hname)) htext.symm

lemma lexical_clause {n : Node} (h : Parser.IsClause n) : Vocabulary.lexical.Clause n := by
  cases n with
  | importNames start path names stop => exact h
  | _ => exact h.elim

lemma lexical_imports {n : Node} (h : Parser.IsDefinition n) : Vocabulary.lexical.Imports n := by
  cases n with
  | functionDef head params results body => exact fun m hm => lexical_clause (h.2.2.1 m hm)
  | typeDef start isPublic name fields stop => exact fun m hm hi => lexical_clause (h.2.2.2.2 m hm hi)
  | importList start imports stop => exact fun m hm => (h m hm).imp_right lexical_clause
  | importNames => exact h.elim
  | _ => trivial

lemma isCommentText_of_node {n : Node} (h : Parser.IsCommentNode n) : IsCommentText n.commentText := by
  obtain ⟨start, source, rfl, hsource⟩ := h
  exact isCommentText_strip hsource

lemma commentTexts_wf {nodes : List Node} (h : ∀ n ∈ nodes, Parser.IsCommentNode n) :
    ∀ text ∈ nodes.map Node.commentText, IsCommentText text := by
  intro text htext
  obtain ⟨n, hn, rfl⟩ := List.mem_map.1 htext
  exact isCommentText_of_node (h n hn)

lemma commentText_wf {node : Option Node} (h : ∀ n ∈ node, Parser.IsCommentNode n) :
    ∀ text ∈ node.map Node.commentText, IsCommentText text := by
  intro text htext
  obtain ⟨n, hn, rfl⟩ := Option.map_eq_some_iff.1 htext
  exact isCommentText_of_node (h n hn)

lemma CommentedName.lines_wf {name : CommentedName} (h : name.Sound .lexical) :
    ∀ line ∈ name.lines, line.WF := by
  have hcomments {nodes : List Node} (hn : ∀ n ∈ nodes, Parser.IsCommentNode n) :
      ∀ line ∈ nodes.map fun comment => NameLine.comment comment.commentText, line.WF := by
    intro line hline
    obtain ⟨n, hmem, rfl⟩ := List.mem_map.1 hline
    exact isCommentText_of_node (hn n hmem)
  unfold CommentedName.lines
  refine mem_append_of (hcomments h.head) ?_
  split
  · simp
  · next hne =>
    refine List.forall_mem_cons.2 ⟨⟨h.text (by simpa using hne), ?_⟩, ?_⟩
    · exact commentText_wf fun n hn => h.tail n (List.mem_of_mem_head? hn)
    · exact hcomments fun n hn => h.tail n (List.mem_of_mem_tail hn)

lemma ImportEntry.plan_wf {entry : ImportEntry} (h : entry.Sound .lexical) : entry.plan.WF where
  head := commentTexts_wf h.head
  path := by
    obtain ⟨path, hp, hpath⟩ := h.path
    rw [ImportEntry.plan, hp]
    exact hpath
  names line hline := by
    obtain ⟨name, hname, hline⟩ := List.mem_flatMap.1 hline
    exact CommentedName.lines_wf (h.names name hname) line hline
  tail := commentText_wf h.tail

lemma blockPlan_wf {block : ImportBlock} {sorted : List ImportEntry} {leftovers : List Node}
    (h : block.Sound .lexical sorted leftovers) (gap : Bool) : (block.plan gap).WF := by
  rw [blockPlan_eq h]
  refine ⟨commentTexts_wf h.head, fun entry hentry => ?_, commentTexts_wf h.entries.leftovers⟩
  obtain ⟨e, he, rfl⟩ := List.mem_map.1 hentry
  exact ImportEntry.plan_wf (h.entries.sorted e he)

end Imports

section Files

def Commented.Read : Commented → Prop := Commented.Sound Parser.IsCommentNode Parser.IsDefinition

lemma IsFile.split_read {nodes : List Node} (h : IsFile nodes) (onGap : Bool) :
    ∀ group ∈ Commented.split onGap nodes, group.Read := by
  refine split_sound onGap (fun n hn hc => ?_) fun n hn hc => ?_
  · refine (h.each n hn).resolve_right fun hdef => ?_
    cases n with
    | comment => exact hdef.elim
    | _ => cases hc
  · refine (h.each n hn).resolve_left ?_
    rintro ⟨start, source, rfl, -⟩
    cases hc

lemma memberPlan_wf {node : Node} (h : Parser.IsDefinition node) {tail : List Node}
    (ht : ∀ n ∈ tail, Parser.IsCommentNode n) : (memberPlan tail node).WF := by
  cases node with
  | constantDef start isPublic name value stop =>
    exact ⟨h.1, h.2.wf, commentText_wf fun n hn => ht n (List.mem_of_mem_head? hn)⟩
  | functionDef head params results body => exact h.1
  | typeDef start isPublic name fields stop => exact ⟨h.1, h.2.2.1, h.2.2.2.1⟩
  | _ => trivial

lemma Commented.plan_wf {group : Commented} (h : group.Read) (gap : Bool) : (group.plan gap).WF := by
  refine ⟨commentTexts_wf h.head, ?_⟩
  rw [Commented.plan]
  cases hnode : group.node with
  | none => trivial
  | some node => exact memberPlan_wf (h.node node hnode).1 h.tail

lemma groupPlans_wf {imports : Imports.Consolidated} (hb : ∀ gap, (imports.block.plan gap).WF)
    (index : Nat) (previous : Option (Option Node)) {groups : List Commented}
    (h : ∀ g ∈ groups, g.Read) : ∀ plan ∈ groupPlans imports index previous groups, plan.WF := by
  induction groups generalizing index previous with
  | nil => exact nofun
  | cons group groups ih =>
    rw [List.forall_mem_cons] at h
    have hown (gap : Bool) := Commented.plan_wf h.1 gap
    rw [groupPlans]
    dsimp only
    split
    · exact ih _ _ h.2
    · split
      · exact List.forall_mem_cons.2 ⟨hown _, ih _ _ h.2⟩
      · refine List.forall_mem_cons.2 ⟨hb _, ?_⟩
        split
        · exact ih _ _ h.2
        · exact List.forall_mem_cons.2 ⟨hown _, ih _ _ h.2⟩

lemma IsFile.consolidate_ok {nodes : List Node} (h : IsFile nodes) :
    ∃ imports, Imports.consolidate (Commented.split true nodes) = .ok imports ∧
      ∃ (steps : Consolidation (Commented.split true nodes) imports) (sorted : List ImportEntry),
        imports.block.Sound .lexical sorted (Imports.leftovers (steps.resolved.flatMap Prod.fst)) := by
  refine DpLang.consolidate_ok fun g hg => ?_
  obtain ⟨hhead, htail, hnode, hne⟩ := h.split_read true g hg
  exact ⟨hhead, htail, fun n hn => ⟨lexical_imports (hnode n hn).1, (hnode n hn).2⟩, hne⟩

/-- The layout of a file that was read is that of its plan. -/
theorem IsFile.layout_eq {nodes : List Node} (h : IsFile nodes) :
    layout nodes = .ok (planText (filePlan nodes)) := by
  obtain ⟨imports, hc, steps, sorted, hb⟩ := h.consolidate_ok
  exact DpLang.layout_eq lexical_named h.all_isFileMember hc hb

lemma IsFile.plan_wf {nodes : List Node} (h : IsFile nodes) : ∀ group ∈ filePlan nodes, group.WF := by
  obtain ⟨imports, hc, steps, sorted, hb⟩ := h.consolidate_ok
  rw [filePlan, hc]
  exact groupPlans_wf (fun gap => blockPlan_wf hb gap) 0 none (h.split_read true)

end Files

end DpLang
