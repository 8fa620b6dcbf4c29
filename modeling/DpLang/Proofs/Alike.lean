import DpLang.Proofs.Shift
import DpLang.Proofs.Lexing
import DpLang.Proofs.PlanLayout

/-!
# Shifts that look alike

The layout of a tree depends on how many lines lie between two places only as far as they are none,
one or more. Two shifts are alike if they agree on that, and on comments up to the blanks around
them. The plans of a tree moved by one and by the other are the same.
-/

namespace DpLang

/-- The number of lines between two places as far as the layout depends on it. -/
def clip (lines : Int) : Int := max (-1) (min 2 lines)

/-- The shifts agree on the lines between two places, and on comments up to the blanks around them. -/
structure Shift.Alike (s s' : Shift) : Prop where
  step (p q : Position) : clip ((s.place p).line - (s.place q).line) =
    clip ((s'.place p).line - (s'.place q).line)
  comment (p : Position) (text : Text) : Text.strip (s.comment p text) = Text.strip (s'.comment p text)
  flat (p : Position) (text : Text) :
    (s.comment p text).newlines = 0 ∧ (s'.comment p text).newlines = 0

namespace Node

/-- The place that decides on which line a node stops: comments stop on the line on which they
start. -/
def stopMark : Node → Position
  | expression value => value.stopMark
  | comment start _ => start
  | node => node.stop

lemma stop_line_moved {s : Shift} (hs : ∀ p text, (s.comment p text).newlines = 0) :
    ∀ n : Node, (n.moved s).stop.line = (s.place n.stopMark).line
  | expression value => by simpa only [moved, stop, stopMark] using stop_line_moved hs value
  | comment start source => by
    show ((s.place start).after (s.comment start source)).line = _
    rw [line_after, hs]
    exact Int.add_zero _
  | forLoop _ none _ _ _ => rfl
  | forLoop _ (some _) _ _ _ => rfl
  | prefixed .. | assignerDereference .. | binary .. | boolean .. | call .. | index .. | literal ..
  | nil .. | selector .. | zero .. | assign .. | block .. | jump .. | ifElse .. | returnValues ..
  | variableDecl .. | variableDef .. | constantDef .. | functionDef .. | field .. | identifier ..
  | importNames .. | importList .. | parameter .. | typeDef .. | typeSpec .. => rfl

lemma isComment_moved (s : Shift) (n : Node) : (n.moved s).isComment = n.isComment := by
  cases n with
  | forLoop _ test => cases test <;> rfl
  | _ => rfl

lemma any_isComment_moved (s : Shift) (nodes : List Node) :
    (nodes.map (moved s)).any isComment = nodes.any isComment := by
  rw [List.any_map]
  exact congrArg (List.any nodes) (funext (isComment_moved s))

lemma all_isComment_moved (s : Shift) (nodes : List Node) :
    (nodes.map (moved s)).all isComment = nodes.all isComment := by
  rw [List.all_map]
  exact congrArg (List.all nodes) (funext (isComment_moved s))

lemma isImport_moved (s : Shift) (n : Node) : (n.moved s).isImport = n.isImport := by
  cases n with
  | forLoop _ test => cases test <;> rfl
  | _ => rfl

lemma isBareReturn_moved (s : Shift) (n : Node) : (n.moved s).isBareReturn = n.isBareReturn := by
  cases n with
  | forLoop _ test => cases test <;> rfl
  | returnValues start values stop => cases values <;> rfl
  | _ => rfl

lemma withoutImports_moved (s : Shift) (nodes : List Node) :
    withoutImports (nodes.map (moved s)) = (withoutImports nodes).map (moved s) := by
  unfold withoutImports
  rw [List.filter_map]
  congr 2
  funext n
  rw [Function.comp_apply, isImport_moved]

lemma dropBareReturns_moved (s : Shift) (nodes : List Node) :
    dropBareReturns (nodes.map (moved s)) = (dropBareReturns nodes).map (moved s) := by
  induction nodes with
  | nil => rfl
  | cons n nodes ih =>
    rw [List.map_cons, dropBareReturns_cons, dropBareReturns_cons, ih, isBareReturn_moved,
      all_isComment_moved]
    split <;> rfl

lemma functionBody_moved (s : Shift) (results body : List Node) :
    functionBody (results.map (moved s)) (body.map (moved s)) =
      (functionBody results body).map (moved s) := by
  unfold functionBody
  dsimp only
  rw [List.isEmpty_map, withoutImports_moved, dropBareReturns_moved]
  split <;> rfl

lemma parameterPlan_moved (s : Shift) (n : Node) : (n.moved s).parameterPlan = n.parameterPlan := by
  cases n with
  | parameter start name type stop => cases type <;> rfl
  | forLoop _ test => cases test <;> rfl
  | _ => rfl

lemma resultPlan_moved (s : Shift) (n : Node) : (n.moved s).resultPlan = n.resultPlan := by
  cases n with
  | forLoop _ test => cases test <;> rfl
  | _ => rfl

lemma fieldPlan_moved (s : Shift) (n : Node) : (n.moved s).fieldPlan = n.fieldPlan := by
  cases n with
  | forLoop _ test => cases test <;> rfl
  | _ => rfl

end Node

section Alike

variable {s s' : Shift} (h : s.Alike s')

include h

lemma Shift.Alike.stop_line {n : Node} :
    (n.moved s).stop.line = (s.place n.stopMark).line ∧
      (n.moved s').stop.line = (s'.place n.stopMark).line :=
  ⟨Node.stop_line_moved (fun p text => (h.flat p text).1) n,
    Node.stop_line_moved (fun p text => (h.flat p text).2) n⟩

lemma Shift.Alike.behind (p : Position) (n : Node) :
    clip ((s.place p).line - (n.moved s).stop.line) =
      clip ((s'.place p).line - (n.moved s').stop.line) := by
  rw [h.stop_line.1, h.stop_line.2]
  exact h.step _ _

lemma Shift.Alike.spans (p : Position) (n : Node) :
    clip ((n.moved s).stop.line - (s.place p).line) =
      clip ((n.moved s').stop.line - (s'.place p).line) := by
  rw [h.stop_line.1, h.stop_line.2]
  exact h.step _ _

lemma Shift.Alike.spansLines (p : Position) (nodes : List Node) :
    spansLines (s.place p).line (nodes.map (Node.moved s)) =
      DpLang.spansLines (s'.place p).line (nodes.map (Node.moved s')) := by
  unfold DpLang.spansLines
  rw [List.any_map, List.any_map]
  congr 1
  funext n
  have hstep := h.spans p n
  simp only [Function.comp_apply, Node.isComment_moved]
  congr 1
  unfold clip at hstep
  exact decide_eq_decide.2 (by omega)

lemma Gap.before_alike (q : Position) (n : Node) :
    Gap.before (s.place q).line (n.moved s) = Gap.before (s'.place q).line (n.moved s') := by
  have hstep := h.step n.start q
  unfold Gap.before clip at *
  simp only [Node.isComment_moved, Node.start_moved]
  have h0 : (s.place n.start).line - (s.place q).line = 0 ↔
      (s'.place n.start).line - (s'.place q).line = 0 := by omega
  have h1 : (s.place n.start).line - (s.place q).line ≤ 1 ↔
      (s'.place n.start).line - (s'.place q).line ≤ 1 := by omega
  simp only [h0, h1]

lemma Gap.within_alike (spread : Bool) (q : Position) (n : Node) :
    Gap.within spread (s.place q).line (n.moved s) =
      Gap.within spread (s'.place q).line (n.moved s') := by
  unfold Gap.within
  rw [Gap.before_alike h]

mutual
lemma exprPlan_alike (n : Node) : (n.moved s).exprPlan = (n.moved s').exprPlan := by
  cases n with
  | prefixed start op operand stop =>
    have ih := exprPlan_alike operand
    by_cases hop : op = .unary .identity
    · subst hop
      exact ih
    · simp only [Node.moved, Node.exprPlan, ih]
  | binary left op right stop =>
    simp only [Node.moved, Node.exprPlan, exprPlan_alike left, exprPlan_alike right]
  | call name args stop =>
    have hspread := h.spansLines name.start args
    have hargs := valuePlans_alike (spansLines (s'.place name.start).line (args.map (Node.moved s')))
      name.start args
    simp only [Node.movedAll_eq_map] at hargs
    simp only [Node.moved, Node.exprPlan, Node.movedAll_eq_map]
    show ExprPlan.call name.names (spansLines (s.place name.start).line _)
      (valuePlans (spansLines (s.place name.start).line _) (s.place name.start).line _) = _
    rw [hspread, hargs]
    rfl
  | index name subscript stop =>
    simp only [Node.moved, Node.exprPlan, exprPlan_alike subscript]
    rfl
  | forLoop _ test => cases test <;> rfl
  | _ => rfl

lemma valuePlans_alike (spread : Bool) (q : Position) (nodes : List Node) :
    valuePlans spread (s.place q).line (Node.movedAll s nodes) =
      valuePlans spread (s'.place q).line (Node.movedAll s' nodes) := by
  cases nodes with
  | nil => rfl
  | cons n nodes =>
    have hrest := valuePlans_alike spread n.stopMark nodes
    rw [← h.stop_line.1, ← h.stop_line.2] at hrest
    have hgap := Gap.within_alike h spread q n
    cases n with
    | comment start source =>
      exact congrArg₂ List.cons (congrArg₂ ValuePlan.comment hgap (h.comment start source)) hrest
    | assignerDereference start name stop =>
      exact congrArg₂ List.cons (congrArg (ValuePlan.dereference · name) hgap) hrest
    | expression value =>
      exact congrArg₂ List.cons (congrArg₂ ValuePlan.value hgap (exprPlan_alike value)) hrest
    | forLoop _ test => cases test <;> exact valuePlans_alike spread q nodes
    | _ => exact valuePlans_alike spread q nodes
end

lemma valuesOf_alike (q : Position) (nodes : List Node) :
    valuePlans (spansLines (s.place q).line (nodes.map (Node.moved s))) (s.place q).line
        (nodes.map (Node.moved s)) =
      valuePlans (spansLines (s'.place q).line (nodes.map (Node.moved s'))) (s'.place q).line
        (nodes.map (Node.moved s')) := by
  have hvalues := valuePlans_alike h (spansLines (s'.place q).line (nodes.map (Node.moved s'))) q nodes
  rw [h.spansLines]
  simpa only [Node.movedAll_eq_map] using hvalues

lemma targetPlan_alike (n : Node) : (n.moved s).targetPlan = (n.moved s').targetPlan := by
  cases n with
  | call name args stop =>
    have hspread := h.spansLines name.start args
    have hargs := valuesOf_alike h name.start args
    simp only [Node.moved, Node.targetPlan, Node.movedAll_eq_map]
    exact congr (congrArg (TargetPlan.call name.names) hspread) hargs
  | index name subscript stop =>
    exact congrArg (TargetPlan.index name.names) (exprPlan_alike h subscript)
  | forLoop _ test => cases test <;> rfl
  | _ => rfl

mutual
lemma statementPlan_alike (n : Node) : (n.moved s).statementPlan = (n.moved s').statementPlan := by
  cases n with
  | assign start targets values stop =>
    have htargets : (targets.map (Node.moved s)).map Node.targetPlan =
        (targets.map (Node.moved s')).map Node.targetPlan := by
      simp only [List.map_map]
      exact List.map_congr_left fun n _ => targetPlan_alike h n
    simp only [Node.moved, Node.statementPlan, Node.movedAll_eq_map]
    rw [htargets, valuesOf_alike h, h.spansLines]
  | block start body stop =>
    simp only [Node.moved, Node.statementPlan]
    rw [entryPlans_alike start body]
  | expression value =>
    simp only [Node.moved, Node.statementPlan]
    rw [exprPlan_alike h value]
  | forLoop start test bodyStart body stop =>
    cases test with
    | none =>
      simp only [Node.moved, Node.statementPlan]
      rw [entryPlans_alike bodyStart body]
    | some test =>
      simp only [Node.moved, Node.statementPlan]
      rw [exprPlan_alike h test, entryPlans_alike bodyStart body]
  | ifElse start test thenStart thenBody thenStop elseBody stop =>
    simp only [Node.moved, Node.statementPlan]
    rw [exprPlan_alike h test, entryPlans_alike thenStart thenBody, entryPlans_alike thenStop elseBody]
  | returnValues start values stop =>
    simp only [Node.moved, Node.statementPlan, Node.movedAll_eq_map]
    rw [valuesOf_alike h, h.spansLines]
  | variableDecl start names type stop => cases type <;> rfl
  | variableDef start names values stop =>
    simp only [Node.moved, Node.statementPlan, Node.movedAll_eq_map]
    rw [valuesOf_alike h, h.spansLines]
  | _ => rfl

lemma entryPlans_alike (q : Position) (nodes : List Node) :
    entryPlans (s.place q).line (Node.movedAll s nodes) =
      entryPlans (s'.place q).line (Node.movedAll s' nodes) := by
  cases nodes with
  | nil => rfl
  | cons n nodes =>
    have hrest := entryPlans_alike n.stopMark nodes
    rw [← h.stop_line.1, ← h.stop_line.2] at hrest
    have hgap := Gap.before_alike h q n
    have hplan := statementPlan_alike n
    cases n with
    | importNames start path names stop => exact entryPlans_alike q nodes
    | comment start source =>
      exact congrArg₂ List.cons (congrArg₂ EntryPlan.comment hgap (h.comment start source)) hrest
    | forLoop start test =>
      cases test <;> exact congrArg₂ List.cons (congrArg₂ EntryPlan.statement hgap hplan) hrest
    | _ => exact congrArg₂ List.cons (congrArg₂ EntryPlan.statement hgap hplan) hrest
end

section Definitions

lemma memberPlans_alike {α : Type} {item : Node → α} (hitem : ∀ n : Node, item (n.moved s) = item (n.moved s'))
    (spread : Bool) (q : Position) (nodes : List Node) :
    memberPlans item spread (s.place q).line (nodes.map (Node.moved s)) =
      memberPlans item spread (s'.place q).line (nodes.map (Node.moved s')) := by
  induction nodes generalizing q with
  | nil => rfl
  | cons n nodes ih =>
    have hrest := ih n.stopMark
    rw [← h.stop_line.1, ← h.stop_line.2] at hrest
    have hgap := Gap.within_alike h spread q n
    rw [List.map_cons, List.map_cons]
    cases hc : n.isComment with
    | true =>
      cases n with
      | comment start source =>
        exact congrArg₂ List.cons (congrArg₂ Member.comment hgap (h.comment start source)) hrest
      | _ => cases hc
    | false =>
      rw [memberPlans_cons _ _ _ (by rw [Node.isComment_moved, hc]),
        memberPlans_cons _ _ _ (by rw [Node.isComment_moved, hc]), hgap, hitem, hrest]

lemma start_line_alike (n : Node) (q : Position) :
    (n.moved s).start.line ≠ (s.place q).line ↔ (n.moved s').start.line ≠ (s'.place q).line := by
  have hstep := h.step n.start q
  rw [Node.start_moved, Node.start_moved]
  unfold clip at hstep
  omega

lemma spreadParameters_alike (q : Position) (nodes : List Node) :
    spreadParameters (s.place q).line (nodes.map (Node.moved s)) =
      spreadParameters (s'.place q).line (nodes.map (Node.moved s')) := by
  cases nodes with
  | nil => rfl
  | cons n nodes =>
    have hany := Node.any_isComment_moved s (n :: nodes)
    have hany' := Node.any_isComment_moved s' (n :: nodes)
    rw [List.map_cons] at hany hany'
    simp only [spreadParameters, List.map_cons, hany, hany', start_line_alike h]

lemma spreadResults_alike (q : Position) (nodes : List Node) :
    spreadResults (s.place q).line (nodes.map (Node.moved s)) =
      spreadResults (s'.place q).line (nodes.map (Node.moved s')) := by
  match nodes with
  | [] => rfl
  | [n] => simp only [spreadResults, List.map_cons, List.map_nil, Node.isComment_moved]
  | n :: n' :: nodes =>
    have hany := Node.any_isComment_moved s (n :: n' :: nodes)
    have hany' := Node.any_isComment_moved s' (n :: n' :: nodes)
    rw [List.map_cons, List.map_cons] at hany hany'
    simp only [spreadResults, List.map_cons, hany, hany', start_line_alike h]

lemma functionPlan_alike (head : FunctionHead) (params results body : List Node) :
    functionPlan (move s head) (params.map (Node.moved s)) (results.map (Node.moved s))
        (body.map (Node.moved s)) =
      functionPlan (move s' head) (params.map (Node.moved s')) (results.map (Node.moved s'))
        (body.map (Node.moved s')) := by
  have hparams := spreadParameters_alike h head.start params
  have hresults := spreadResults_alike h head.paramsStop results
  have hbody := entryPlans_alike h head.bodyStart (functionBody results body)
  simp only [Node.movedAll_eq_map, ← Node.functionBody_moved] at hbody
  unfold functionPlan
  congr 1
  · cases hr : head.receiverType <;> simp [move, hr]
  · exact (congrArg (memberPlans Node.parameterPlan · _ _) hparams).trans
      (memberPlans_alike h (fun n => by rw [Node.parameterPlan_moved, Node.parameterPlan_moved]) _
        head.start params)
  · exact (congrArg (memberPlans Node.resultPlan · _ _) hresults).trans
      (memberPlans_alike h (fun n => by rw [Node.resultPlan_moved, Node.resultPlan_moved]) _
        head.paramsStop results)

lemma commentText_alike (n : Node) : (n.moved s).commentText = (n.moved s').commentText := by
  cases n with
  | comment start source => exact h.comment start source
  | forLoop _ test => cases test <;> rfl
  | _ => rfl

lemma commentTexts_alike (nodes : List Node) :
    (nodes.map (Node.moved s)).map Node.commentText =
      (nodes.map (Node.moved s')).map Node.commentText := by
  rw [List.map_map, List.map_map]
  exact List.map_congr_left fun n _ => commentText_alike h n

lemma memberPlan_alike (tail : List Node) (n : Node) :
    memberPlan (tail.map (Node.moved s)) (n.moved s) =
      memberPlan (tail.map (Node.moved s')) (n.moved s') := by
  cases n with
  | constantDef start isPublic name value stop =>
    have htail : ((tail.map (Node.moved s)).head?).map Node.commentText =
        ((tail.map (Node.moved s')).head?).map Node.commentText := by
      cases tail with
      | nil => rfl
      | cons n tail => exact congrArg some (commentText_alike h n)
    simp only [Node.moved, memberPlan]
    rw [htail, exprPlan_alike h value]
  | functionDef head params results body =>
    simp only [Node.moved, memberPlan, Node.movedAll_eq_map]
    rw [functionPlan_alike h]
  | typeDef start isPublic name fields stop =>
    simp only [Node.moved, memberPlan, Node.movedAll_eq_map, Node.withoutImports_moved]
    rw [memberPlans_alike h fun n => by rw [Node.fieldPlan_moved, Node.fieldPlan_moved]]
  | forLoop _ test => cases test <;> rfl
  | _ => rfl

end Definitions

end Alike

end DpLang
