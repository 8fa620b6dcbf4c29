import DpLang.Proofs.ImportBlock
import DpLang.Proofs.PlanLayout

/-!
# Layout of file plans

Import blocks and groups, for plans instead of trees. The layout of a file whose nodes are in place is
that of its plan.
-/

namespace DpLang

section Imports

variable {V : Vocabulary}

namespace NameLine

def isBare : NameLine → Bool
  | .comment _ => false
  | .name _ tail => tail.isNone

def nameText : NameLine → Text
  | .comment _ => []
  | .name text _ => text

def text : NameLine → Text
  | .comment text => ("\n\t\t" : Text) ++ text
  | .name text tail => ("\n\t\t" : Text) ++ text ++ [','] ++ (tail.map (' ' :: ·)).getD []

end NameLine

/-- The names of an import in parentheses. -/
def namesTextOf (names : List NameLine) : Text :=
  if names.all NameLine.isBare then
    '(' :: Text.join ", " (names.map NameLine.nameText) ++ [')']
  else '(' :: names.flatMap NameLine.text ++ ("\n\t)" : Text)

def commentLinesOf (indentation : Text) (comments : List Text) : Text :=
  comments.flatMap fun comment => indentation ++ comment ++ ['\n']

def pathGroup (path : Text) : ImportPath.Group :=
  match ImportPath.group path with
  | .ok group => group
  | .error _ => .ordinary

namespace ImportPlan

def pathLine (entry : ImportPlan) : Text :=
  '\t' :: entry.path ++
    (if entry.names.isEmpty then []
     else (if entry.path.isEmpty then [] else [' ']) ++ namesTextOf entry.names) ++
    (entry.tail.map (' ' :: ·)).getD [] ++ ['\n']

/-- The import behind one with the path `previous`. -/
def text (previous : Option Text) (entry : ImportPlan) : Text :=
  (if previous.any fun path => pathGroup path ≠ pathGroup entry.path then ['\n'] else []) ++
    commentLinesOf ['\t'] entry.head ++ entry.pathLine

end ImportPlan

/-- The imports behind one with the path `previous`, and the comments that belong to none. -/
def importsText (leftovers : List Text) (previous : Option Text) : List ImportPlan → Text
  | [] => if leftovers.isEmpty then [] else '\n' :: commentLinesOf ['\t'] leftovers
  | entry :: entries => entry.text previous ++ importsText leftovers (some entry.path) entries

lemma commentLines_eq (indentation : Text) {comments : List Node}
    (h : ∀ n ∈ comments, n.isComment = true) :
    commentLines indentation comments =
      commentLinesOf indentation (comments.map Node.commentText) := by
  unfold commentLines commentLinesOf
  rw [List.flatMap_map]
  refine List.flatMap_congr fun n hn => ?_
  have hc := h n hn
  cases n <;> first | rfl | exact Bool.noConfusion hc

lemma nameLines_eq (name : CommentedName) :
    ImportEntry.nameLines name = name.lines.flatMap NameLine.text := by
  unfold ImportEntry.nameLines CommentedName.lines
  rw [List.flatMap_append, List.flatMap_map]
  congr 1
  cases name.name.isEmpty with
  | true => rfl
  | false =>
    rw [if_neg Bool.false_ne_true, if_neg Bool.false_ne_true, List.flatMap_cons, List.flatMap_map]
    cases name.tail with
    | nil => simp [NameLine.text]
    | cons first rest => simp [NameLine.text]

lemma isBare_lines (hV : V.Named) {name : CommentedName} (h : name.Sound V) :
    name.lines.all NameLine.isBare =
      (!name.name.isEmpty && name.head.isEmpty && name.tail.isEmpty) := by
  unfold CommentedName.lines
  cases hn : name.name.isEmpty with
  | true =>
    have hh := (h.alone hV (List.isEmpty_iff.mp hn)).1
    rw [if_pos rfl, List.append_nil, Bool.not_true, Bool.false_and, Bool.false_and]
    cases hhead : name.head with
    | nil => exact absurd hhead hh
    | cons comment rest => rfl
  | false =>
    rw [if_neg Bool.false_ne_true, Bool.not_false, Bool.true_and, List.all_append]
    cases name.head with
    | cons comment rest => rfl
    | nil =>
      cases name.tail with
      | nil => rfl
      | cons comment rest => rfl

lemma namesText_eq (hV : V.Named) {names : List CommentedName} (h : ∀ n ∈ names, n.Sound V) :
    ImportEntry.namesText names = namesTextOf (names.flatMap CommentedName.lines) := by
  have hbare : (names.flatMap CommentedName.lines).all NameLine.isBare =
      names.all fun name => !name.name.isEmpty && name.head.isEmpty && name.tail.isEmpty := by
    rw [List.all_flatMap]
    induction names with
    | nil => rfl
    | cons name names ih =>
      rw [List.forall_mem_cons] at h
      rw [List.all_cons, List.all_cons, ih h.2, isBare_lines hV h.1]
  unfold ImportEntry.namesText namesTextOf
  rw [hbare]
  split
  · next hall =>
    have hmap : (names.flatMap CommentedName.lines).map NameLine.nameText =
        names.map CommentedName.name := by
      clear hbare
      induction names with
      | nil => rfl
      | cons name names ih =>
        rw [List.forall_mem_cons] at h
        rw [List.all_cons, Bool.and_eq_true] at hall
        have hname := hall.1
        simp only [Bool.and_eq_true, List.isEmpty_iff] at hname
        rw [List.flatMap_cons, List.map_append, ih h.2 hall.2, CommentedName.lines, hname.1.2,
          hname.2, if_neg (by simpa using hname.1.1)]
        rfl
    rw [hmap]
  · rw [List.flatMap_assoc, funext nameLines_eq]

lemma lines_ne_nil (hV : V.Named) {name : CommentedName} (h : name.Sound V) : name.lines ≠ [] := by
  unfold CommentedName.lines
  cases hn : name.name.isEmpty with
  | true =>
    rw [if_pos rfl, List.append_nil]
    simpa using (h.alone hV (List.isEmpty_iff.mp hn)).1
  | false => simp

lemma pathLine_eq (hV : V.Named) {path : Text} {entry : ImportEntry} (hp : entry.path = some path)
    (h : ∀ n ∈ entry.names, n.Sound V) :
    ImportEntry.pathLine path entry = entry.plan.pathLine := by
  have hempty : entry.plan.names.isEmpty = entry.names.isEmpty := by
    unfold ImportEntry.plan
    cases hn : entry.names with
    | nil => rfl
    | cons name names =>
      have := lines_ne_nil hV (h name (by rw [hn]; exact List.mem_cons_self))
      simp [this]
  have hpath : entry.plan.path = path := by
    unfold ImportEntry.plan
    rw [hp]
    rfl
  have htail : (entry.tail.map fun comment => ' ' :: comment.commentText) =
      entry.plan.tail.map (' ' :: ·) := by
    unfold ImportEntry.plan
    cases entry.tail <;> rfl
  unfold ImportEntry.pathLine ImportPlan.pathLine
  rw [hempty, hpath, htail, namesText_eq hV h]
  rfl

lemma group_eq {path : Text} (h : isImportPath path = true) :
    ImportPath.group path = .ok (pathGroup path) := by
  obtain ⟨group, hgroup⟩ := group_ok h
  rw [pathGroup, hgroup]

lemma entryText_eq (hV : V.Named) {previous : Option Text}
    (hprevious : ∀ p ∈ previous, isImportPath p = true) {entry : ImportEntry} (h : entry.Sound V) :
    entry.text previous = .ok (entry.plan.text previous) := by
  obtain ⟨path, hp, hpath⟩ := h.path
  have hplan : entry.plan.path = path := by
    unfold ImportEntry.plan
    rw [hp]
    rfl
  unfold ImportEntry.text ImportPlan.text
  dsimp only
  rw [hp, commentLines_eq _ fun n hn => V.isComment (h.head n hn), hplan]
  cases previous with
  | none =>
    dsimp only
    rw [pathLine_eq hV hp h.names]
    rfl
  | some previous =>
    dsimp only
    rw [pathLine_eq hV hp h.names, group_eq (hprevious previous rfl), group_eq (V.isImportPath hpath)]
    simp only [bind_ok, Option.any_some, decide_eq_true_eq]
    rfl

lemma entriesText_eq (hV : V.Named) {leftovers : List Node} (hl : ∀ n ∈ leftovers, n.isComment = true)
    {sorted : List ImportEntry} (h : ∀ e ∈ sorted, e.Sound V) {previous : Option Text}
    (hprevious : ∀ p ∈ previous, isImportPath p = true) :
    ImportBlock.entriesText previous
        (sorted ++ if leftovers.isEmpty then [] else [⟨leftovers, none, [], none⟩]) =
      .ok (importsText (leftovers.map Node.commentText) previous (sorted.map ImportEntry.plan)) := by
  induction sorted generalizing previous with
  | nil =>
    rw [List.nil_append, List.map_nil, importsText, List.isEmpty_map]
    cases leftovers.isEmpty with
    | true => rfl
    | false =>
      have htext : ImportEntry.text previous ⟨leftovers, none, [], none⟩ =
          .ok ('\n' :: commentLines ['\t'] leftovers) := rfl
      rw [if_neg Bool.false_ne_true, if_neg Bool.false_ne_true, ImportBlock.entriesText, htext,
        bind_ok, ImportBlock.entriesText, bind_ok, commentLines_eq _ hl, List.append_nil]
      rfl
  | cons entry sorted ih =>
    rw [List.forall_mem_cons] at h
    obtain ⟨path, hp, hpath⟩ := h.1.path
    have hnext : ∀ p ∈ entry.path, isImportPath p = true := by
      rw [hp]
      intro p hmem
      rw [← Option.some.inj hmem]
      exact V.isImportPath hpath
    have hplan : some entry.plan.path = entry.path := by
      unfold ImportEntry.plan
      rw [hp]
      rfl
    rw [List.cons_append, ImportBlock.entriesText, entryText_eq hV hprevious h.1, bind_ok,
      ih h.2 hnext, List.map_cons, importsText, hplan]
    rfl

def blockText (head : List Text) (entries : List ImportPlan) (leftovers : List Text) : Text :=
  commentLinesOf [] head ++ ("import \x7b\n" : Text) ++ importsText leftovers none entries ++
    ("\x7d\n" : Text)

lemma blockText_eq (hV : V.Named) {block : ImportBlock} {sorted : List ImportEntry} {leftovers : List Node}
    (h : block.Sound V sorted leftovers) :
    block.text = .ok (blockText (block.head.map Node.commentText) (sorted.map ImportEntry.plan)
      (leftovers.map Node.commentText)) := by
  rw [ImportBlock.text, h.entries.entries,
    entriesText_eq hV (fun n hn => V.isComment (h.entries.leftovers n hn)) h.entries.sorted (by simp),
    commentLines_eq _ fun n hn => V.isComment (h.head n hn)]
  rfl

end Imports

section Groups

variable {V : Vocabulary}

lemma Page.write_append (page : Page) (a b : Text) :
    (page.write a).write b = page.write (a ++ b) := by
  simp [Page.write, Text.newlines, Int.add_assoc]

lemma Page.write_nil (page : Page) : page.write [] = page := by
  simp [Page.write, Text.newlines]

def MemberPlan.write (page : Page) : MemberPlan → Page
  | .nothing => page
  | .constant isPublic name value tail => writeConstantOf isPublic name value tail page
  | .function f => f.write page
  | .typeDef isPublic name fields => writeTypeOf isPublic name fields page
  | .imports entries leftovers => page.write (blockText [] entries leftovers)

def GroupPlan.write (page : Page) (group : GroupPlan) : Page :=
  let page := if group.gap then page.write ['\n'] else page
  group.member.write (page.write (commentLinesOf [] group.head))

def planText (groups : List GroupPlan) : Text := (groups.foldl GroupPlan.write .blank).value

lemma writeMember_eq {node : Node} (h : node.isFileMember) {tail : List Node}
    (ht : ∀ n ∈ tail, n.isComment = true) (page : Page) :
    File.writeMember tail page node = .ok ((memberPlan tail node).write page) := by
  cases node with
  | constantDef start isPublic name value stop =>
    rw [Node.isFileMember] at h
    exact writeConstant_eq isPublic name h (List.all_eq_true.mpr ht) page
  | functionDef head params results body =>
    rw [Node.isFileMember, Bool.and_eq_true, Bool.and_eq_true] at h
    exact writeFunction_eq head h.1.1 h.1.2 h.2 page
  | typeDef start isPublic name fields stop =>
    rw [Node.isFileMember] at h
    exact writeType_eq start.line isPublic name h page
  | comment start source => rfl
  | importList start imports stop => rfl
  | _ => exact Bool.noConfusion h

lemma blockPlan_eq {block : ImportBlock} {sorted : List ImportEntry} {leftovers : List Node}
    (h : block.Sound V sorted leftovers) (gap : Bool) :
    block.plan gap =
      ⟨gap, block.head.map Node.commentText,
        .imports (sorted.map ImportEntry.plan) (leftovers.map Node.commentText)⟩ := by
  have hsome : ∀ e ∈ sorted, e.path.isSome = true := by
    intro e he
    obtain ⟨path, hp, _⟩ := (h.entries.sorted e he).path
    rw [hp]
    rfl
  have hnone : ∀ e ∈ sorted, ¬ e.path.isNone = true := by
    intro e he
    rw [Option.isNone_iff_eq_none]
    exact fun hn => by simpa [hn] using hsome e he
  unfold ImportBlock.plan
  rw [h.entries.entries, List.filter_append, List.filter_append, List.filter_eq_self.mpr hsome,
    List.filter_eq_nil_iff.mpr hnone]
  cases leftovers with
  | nil => simp
  | cons n ns => simp

/-- The plan of a group apart from the import block. -/
def Commented.plan (group : Commented) (gap : Bool) : GroupPlan :=
  ⟨gap, group.head.map Node.commentText, (group.node.map (memberPlan group.tail)).getD .nothing⟩

lemma write_gap (page : Page) (group : GroupPlan) :
    group.write page =
      GroupPlan.write (if group.gap then page.write ['\n'] else page) { group with gap := false } := rfl

lemma writeMembers_eq {group : Commented} (h : group.Plain) (page : Page) :
    (match group.node with
      | none => (pure page : Except LayoutFault Page)
      | some node => File.writeMember group.tail page node) =
      .ok (((group.node.map (memberPlan group.tail)).getD .nothing).write page) := by
  cases hnode : group.node with
  | none => rfl
  | some node => exact writeMember_eq (h.node node hnode).1 h.tail page

lemma writeGroup_eq {group : Commented} (h : group.Plain) (page : Page) :
    File.writeGroup none group page = .ok ((group.plan false).write page) := by
  unfold File.writeGroup
  dsimp only
  rw [bind_ok, commentLines_eq _ h.head, Page.write_nil, Option.isSome_none, Bool.and_false,
    if_neg Bool.false_ne_true]
  exact writeMembers_eq h _

lemma writeGroup_block (hV : V.Named) {block : ImportBlock} {sorted : List ImportEntry} {leftovers : List Node}
    (hb : block.Sound V sorted leftovers) {group : Commented} (h : group.Plain)
    (page : Page) :
    File.writeGroup (some block) group page =
      .ok ((block.plan false :: if group.node.any File.isImporting then [] else [group.plan true]).foldl
        GroupPlan.write page) := by
  have hblock : GroupPlan.write page (block.plan false) =
      page.write (blockText (block.head.map Node.commentText) (sorted.map ImportEntry.plan)
        (leftovers.map Node.commentText)) := by
    rw [blockPlan_eq hb, GroupPlan.write]
    simp only [Bool.false_eq_true, if_false, MemberPlan.write, Page.write_append]
    simp [blockText, commentLinesOf]
  unfold File.writeGroup
  dsimp only
  rw [blockText_eq hV hb, List.foldl_cons, hblock]
  cases hi : group.node.any File.isImporting with
  | true =>
    cases hnode : group.node with
    | none => rw [hnode] at hi; cases hi
    | some node =>
      have hm := (h.node node hnode).1
      rw [hnode] at hi
      cases node with
      | importList start imports stop =>
        simp only [bind_ok, pure, Except.pure, Option.isSome_some, Bool.and_true, if_true,
          List.append_nil]
        rfl
      | importNames start path names stop => exact Bool.noConfusion hm
      | _ => exact Bool.noConfusion hi
  | false =>
    simp only [bind_ok, pure, Except.pure, Bool.false_and, Bool.false_eq_true, if_false]
    rw [← Page.write_append, commentLines_eq _ h.head]
    exact writeMembers_eq h _

lemma writeGroups_eq (hV : V.Named) {imports : Imports.Consolidated} {sorted : List ImportEntry}
    {leftovers : List Node} (hb : imports.block.Sound V sorted leftovers) (index : Nat)
    (previous : Option (Option Node)) (page : Page) {groups : List Commented}
    (h : ∀ g ∈ groups, g.Plain) :
    File.writeGroups imports index previous page groups =
      .ok ((groupPlans imports index previous groups).foldl GroupPlan.write page) := by
  induction groups generalizing index previous page with
  | nil => rfl
  | cons group groups ih =>
    rw [List.forall_mem_cons] at h
    rw [File.writeGroups, groupPlans]
    dsimp only
    split
    · exact ih _ _ _ h.2
    · cases hhere : imports.index == some index with
      | false =>
        rw [if_neg Bool.false_ne_true, Bool.not_false, if_pos rfl, writeGroup_eq h.1, bind_ok,
          ih _ _ _ h.2, List.foldl_cons, write_gap]
        rfl
      | true =>
        rw [if_pos rfl, Bool.not_true, if_neg Bool.false_ne_true, writeGroup_block hV hb h.1, bind_ok,
          ih _ _ _ h.2]
        cases group.node.any File.isImporting with
        | true => rfl
        | false => rfl

/-- The layout of a file whose imports can be consolidated is that of its plan. -/
theorem layout_eq (hV : V.Named) {nodes : List Node} (h : nodes.all Node.isFileMember)
    {imports : Imports.Consolidated} (hc : Imports.consolidate (Commented.split true nodes) = .ok imports)
    {sorted : List ImportEntry} {leftovers : List Node} (hb : imports.block.Sound V sorted leftovers) :
    layout nodes = .ok (planText (filePlan nodes)) := by
  unfold layout filePlan
  rw [hc]
  cases nodes with
  | nil => rfl
  | cons node nodes =>
    rw [List.isEmpty_cons, if_neg Bool.false_ne_true]
    dsimp only
    rw [hc, bind_ok, writeGroups_eq hV hb _ _ _ (split_plain h)]
    rfl

end Groups

end DpLang
