import DpLang.Grammar.Cursor
import DpLang.Tree.Node
import Mathlib.Tactic.Lemma

/-!
# Moving tokens and trees

A shift sends positions to other positions and gives comments other texts. It changes neither the
kinds of tokens nor the texts of tokens that are not comments, so that a token sequence and its
image look the same to a parser. `significant` leaves out what no parser sees: blanks, and line ends
that directly follow another one.
-/

namespace DpLang

/-- Where positions go, and what becomes of the comment that starts at a position. -/
structure Shift where
  place : Position → Position
  comment : Position → Text → Text

/-- The shift that changes nothing. -/
def Shift.identity : Shift := ⟨id, fun _ text => text⟩

/-- Things that can be moved. -/
class Movable (α : Type) where
  move : Shift → α → α

export Movable (move)

instance : Movable Bool := ⟨fun _ x => x⟩
instance : Movable Unit := ⟨fun _ x => x⟩
instance : Movable Text := ⟨fun _ x => x⟩
instance : Movable TokenKind := ⟨fun _ x => x⟩
instance : Movable BinaryOp := ⟨fun _ x => x⟩
instance : Movable FieldAccess := ⟨fun _ x => x⟩
instance : Movable TypeFlags := ⟨fun _ x => x⟩
instance : Movable TypeExpr := ⟨fun _ x => x⟩
instance : Movable Position := ⟨Shift.place⟩
instance {α : Type} [Movable α] : Movable (Option α) := ⟨fun s => Option.map (move s)⟩
instance {α : Type} [Movable α] : Movable (List α) := ⟨fun s => List.map (move s)⟩
instance {α β : Type} [Movable α] [Movable β] : Movable (α × β) :=
  ⟨fun s x => (move s x.1, move s x.2)⟩

instance : Movable Token where
  move s t :=
    { t with
      start := s.place t.start
      text := if t.kind = .comment then s.comment t.start t.text else t.text }

instance : Movable TypeSpec := ⟨fun s t => { t with start := s.place t.start, stop := s.place t.stop }⟩
instance : Movable Selector := ⟨fun s t => { t with start := s.place t.start, stop := s.place t.stop }⟩

instance : Movable FunctionHead where
  move s head :=
    { head with
      start := s.place head.start
      receiverType := move s head.receiverType
      paramsStop := s.place head.paramsStop
      bodyStart := s.place head.bodyStart
      stop := s.place head.stop }

namespace Node

mutual
/-- A tree whose positions and comments are moved. -/
def moved (s : Shift) : Node → Node
  | prefixed start op operand stop => prefixed (s.place start) op (operand.moved s) (s.place stop)
  | assignerDereference start name stop => assignerDereference (s.place start) name (s.place stop)
  | binary left op right stop => binary (left.moved s) op (right.moved s) (s.place stop)
  | boolean start value stop => boolean (s.place start) value (s.place stop)
  | call name args stop => call (move s name) (movedAll s args) (s.place stop)
  | index name subscript stop => index (move s name) (subscript.moved s) (s.place stop)
  | literal start kind source stop => literal (s.place start) kind source (s.place stop)
  | nil start stop => nil (s.place start) (s.place stop)
  | selector name => selector (move s name)
  | zero start stop => zero (s.place start) (s.place stop)
  | expression value => expression (value.moved s)
  | assign start targets values stop =>
    assign (s.place start) (movedAll s targets) (movedAll s values) (s.place stop)
  | block start body stop => block (s.place start) (movedAll s body) (s.place stop)
  | jump start kind stop => jump (s.place start) kind (s.place stop)
  | forLoop start none bodyStart body stop =>
    forLoop (s.place start) none (s.place bodyStart) (movedAll s body) (s.place stop)
  | forLoop start (some test) bodyStart body stop =>
    forLoop (s.place start) (some (test.moved s)) (s.place bodyStart) (movedAll s body)
      (s.place stop)
  | ifElse start test thenStart thenBody thenStop elseBody stop =>
    ifElse (s.place start) (test.moved s) (s.place thenStart) (movedAll s thenBody)
      (s.place thenStop) (movedAll s elseBody) (s.place stop)
  | returnValues start values stop =>
    returnValues (s.place start) (movedAll s values) (s.place stop)
  | variableDecl start names type stop =>
    variableDecl (s.place start) names (move s type) (s.place stop)
  | variableDef start names values stop =>
    variableDef (s.place start) names (movedAll s values) (s.place stop)
  | comment start source => comment (s.place start) (s.comment start source)
  | constantDef start isPublic name value stop =>
    constantDef (s.place start) isPublic name (value.moved s) (s.place stop)
  | functionDef head params results body =>
    functionDef (move s head) (movedAll s params) (movedAll s results) (movedAll s body)
  | field start name type access stop =>
    field (s.place start) name (move s type) access (s.place stop)
  | identifier start name stop => identifier (s.place start) name (s.place stop)
  | importNames start path names stop =>
    importNames (s.place start) path (movedAll s names) (s.place stop)
  | importList start imports stop =>
    importList (s.place start) (movedAll s imports) (s.place stop)
  | parameter start name type stop =>
    parameter (s.place start) name (move s type) (s.place stop)
  | typeDef start isPublic name fields stop =>
    typeDef (s.place start) isPublic name (movedAll s fields) (s.place stop)
  | typeSpec spec => typeSpec (move s spec)

/-- Trees whose positions and comments are moved. -/
def movedAll (s : Shift) : List Node → List Node
  | [] => []
  | n :: ns => n.moved s :: movedAll s ns
end

instance : Movable Node := ⟨moved⟩

@[simp] lemma movedAll_eq_map (s : Shift) (ns : List Node) : movedAll s ns = ns.map (moved s) := by
  induction ns with
  | nil => rfl
  | cons n ns ih => rw [movedAll, ih, List.map_cons]

lemma start_moved (s : Shift) : ∀ n : Node, (n.moved s).start = s.place n.start
  | binary left _ _ _ => by simpa only [moved, start] using start_moved s left
  | expression value => by simpa only [moved, start] using start_moved s value
  | forLoop _ none _ _ _ => rfl
  | forLoop _ (some _) _ _ _ => rfl
  | prefixed .. | assignerDereference .. | boolean .. | call .. | index .. | literal .. | nil ..
  | selector .. | zero .. | assign .. | block .. | jump .. | ifElse .. | returnValues ..
  | variableDecl .. | variableDef .. | comment .. | constantDef .. | functionDef .. | field ..
  | identifier .. | importNames .. | importList .. | parameter .. | typeDef .. | typeSpec .. => rfl

lemma typeSpec?_identity (type : Option TypeSpec) : move .identity type = type := by
  cases type <;> rfl

lemma head_identity (head : FunctionHead) : move .identity head = head := by
  change { head with receiverType := move .identity head.receiverType } = head
  rw [typeSpec?_identity]

lemma moved_identity (n : Node) : n.moved .identity = n := by
  apply @moved.induct (fun n => n.moved .identity = n) (fun ns => movedAll .identity ns = ns)
  all_goals
    intros
    simp_all only [moved, movedAll, typeSpec?_identity, head_identity] <;> rfl

end Node

namespace Token

variable (s : Shift) (t : Token)

@[simp] lemma move_kind : (move s t).kind = t.kind := rfl

@[simp] lemma move_start : (move s t).start = s.place t.start := rfl

lemma move_text (h : t.kind ≠ .comment) : (move s t).text = t.text := if_neg h

@[simp] lemma move_isSpace : (move s t).isSpace = t.isSpace := rfl

lemma move_identity : move .identity t = t := by
  change { t with text := if t.kind = .comment then t.text else t.text } = t
  rw [ite_self]

end Token

/-- The tokens without blanks and without line ends that directly follow another one. -/
def significant (afterNewline : Bool) : List Token → List Token
  | [] => []
  | t :: ts =>
    if t.kind = .space then significant afterNewline ts
    else if t.kind = .newline then
      if afterNewline then significant true ts else t :: significant true ts
    else t :: significant false ts

end DpLang
