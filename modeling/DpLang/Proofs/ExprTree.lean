import DpLang.Proofs.Plan

/-!
# Expressions up to positions

What is left of an expression if positions do not count, comments are stripped and the identity
operator is left out. The plan of an expression holds all of this.
-/

namespace DpLang

/-- A selector without its place. -/
def Selector.erased (s : Selector) : Selector := ⟨.unknown, s.names, .unknown⟩

mutual
/-- An expression, or a member of a list of values, without positions and with stripped comments. -/
def Node.erased : Node → Node
  | .prefixed _ op operand _ => .prefixed .unknown op operand.erased .unknown
  | .assignerDereference _ name _ => .assignerDereference .unknown name .unknown
  | .binary left op right _ => .binary left.erased op right.erased .unknown
  | .boolean _ value _ => .boolean .unknown value .unknown
  | .call name args _ => .call name.erased (erasedAll args) .unknown
  | .index name subscript _ => .index name.erased subscript.erased .unknown
  | .literal _ kind source _ => .literal .unknown kind source .unknown
  | .nil _ _ => .nil .unknown .unknown
  | .selector s => .selector s.erased
  | .zero _ _ => .zero .unknown .unknown
  | .expression value => .expression value.erased
  | .comment _ source => .comment .unknown (Text.strip source)
  | node => node

def erasedAll : List Node → List Node
  | [] => []
  | node :: nodes => node.erased :: erasedAll nodes
end

mutual
/-- An expression with every identity operator replaced by its operand. -/
def Node.withoutIdentity : Node → Node
  | .prefixed _ (.unary .identity) operand _ => operand.withoutIdentity
  | .prefixed start op operand stop => .prefixed start op operand.withoutIdentity stop
  | .binary left op right stop => .binary left.withoutIdentity op right.withoutIdentity stop
  | .call name args stop => .call name (withoutIdentityAll args) stop
  | .index name subscript stop => .index name subscript.withoutIdentity stop
  | .expression value => .expression value.withoutIdentity
  | node => node

def withoutIdentityAll : List Node → List Node
  | [] => []
  | node :: nodes => node.withoutIdentity :: withoutIdentityAll nodes
end

mutual
/-- The expression that a plan is made for, without positions. -/
def ExprPlan.tree : ExprPlan → Node
  | .prefixed op operand => .prefixed .unknown op operand.tree .unknown
  | .binary left op right => .binary left.tree op right.tree .unknown
  | .boolean value => .boolean .unknown value .unknown
  | .call names _ args => .call ⟨.unknown, names, .unknown⟩ (valueTrees args) .unknown
  | .index names subscript => .index ⟨.unknown, names, .unknown⟩ subscript.tree .unknown
  | .literal kind source => .literal .unknown kind source .unknown
  | .nil => .nil .unknown .unknown
  | .selector names => .selector ⟨.unknown, names, .unknown⟩
  | .zero => .zero .unknown .unknown

def valueTrees : List ValuePlan → List Node
  | [] => []
  | .comment _ text :: values => .comment .unknown text :: valueTrees values
  | .dereference _ name :: values => .assignerDereference .unknown name .unknown :: valueTrees values
  | .value _ value :: values => .expression value.tree :: valueTrees values
end

mutual
/-- A plan keeps the expression up to positions, comments and identity operators. -/
lemma Node.tree_exprPlan : ∀ e : Node, e.isExpr = true →
    e.exprPlan.tree = e.withoutIdentity.erased := by
  intro e h
  cases e with
  | prefixed start op operand stop =>
    rw [Node.isExpr] at h
    have hoperand := Node.tree_exprPlan operand h
    cases op with
    | unary op =>
      cases op with
      | identity => rw [Node.exprPlan, Node.withoutIdentity, hoperand]
      | _ =>
        rw [Node.exprPlan, Node.withoutIdentity, ExprPlan.tree, Node.erased, hoperand] <;> simp
    | _ => rw [Node.exprPlan, Node.withoutIdentity, ExprPlan.tree, Node.erased, hoperand] <;> simp
  | binary left op right stop =>
    rw [Node.isExpr, Bool.and_eq_true] at h
    rw [Node.exprPlan, ExprPlan.tree, Node.withoutIdentity, Node.erased,
      Node.tree_exprPlan left h.1, Node.tree_exprPlan right h.2]
  | call name args stop =>
    rw [Node.isExpr] at h
    rw [Node.exprPlan, ExprPlan.tree, Node.withoutIdentity, Node.erased, Selector.erased,
      valueTrees_valuePlans _ _ args h]
  | index name subscript stop =>
    rw [Node.isExpr] at h
    rw [Node.exprPlan, ExprPlan.tree, Node.withoutIdentity, Node.erased, Selector.erased,
      Node.tree_exprPlan subscript h]
  | boolean start value stop =>
    rw [Node.exprPlan, ExprPlan.tree, Node.withoutIdentity, Node.erased] <;> simp
  | literal start kind source stop =>
    rw [Node.exprPlan, ExprPlan.tree, Node.withoutIdentity, Node.erased] <;> simp
  | nil start stop =>
    rw [Node.exprPlan, ExprPlan.tree, Node.withoutIdentity, Node.erased] <;> simp
  | selector s =>
    rw [Node.exprPlan, ExprPlan.tree, Node.withoutIdentity, Node.erased, Selector.erased] <;> simp
  | zero start stop =>
    rw [Node.exprPlan, ExprPlan.tree, Node.withoutIdentity, Node.erased] <;> simp
  | _ => simp [Node.isExpr] at h

lemma valueTrees_valuePlans (spread : Bool) (previous : Int) : ∀ nodes : List Node,
    areValues nodes = true →
      valueTrees (valuePlans spread previous nodes) = erasedAll (withoutIdentityAll nodes)
  | [], _ => rfl
  | node :: nodes, h => by
    cases node with
    | comment start source =>
      rw [areValues] at h
      rw [valuePlans, valueTrees, valueTrees_valuePlans _ _ nodes h, withoutIdentityAll, erasedAll,
        Node.withoutIdentity, Node.erased] <;> simp
    | assignerDereference start name stop =>
      rw [areValues] at h
      rw [valuePlans, valueTrees, valueTrees_valuePlans _ _ nodes h, withoutIdentityAll, erasedAll,
        Node.withoutIdentity, Node.erased] <;> simp
    | expression value =>
      rw [areValues, Bool.and_eq_true] at h
      rw [valuePlans, valueTrees, valueTrees_valuePlans _ _ nodes h.2, withoutIdentityAll,
        erasedAll, Node.withoutIdentity, Node.erased, Node.tree_exprPlan value h.1]
    | _ => simp [areValues] at h
end

end DpLang
