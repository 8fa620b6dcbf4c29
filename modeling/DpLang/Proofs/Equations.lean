import DpLang.Proofs.ProgressGrammar

/-!
# Parsers without bounds

As every step takes a token, the bounds on the number of steps never show: the loops and recursions
of the grammar satisfy the equations they would have without them.
-/

namespace DpLang.Parser

variable {α : Type} {multiline : Bool}

lemma atomic_eq : atomic = atomicOf atomic :=
  (isGuarded_bounded (fun _ _ _ h => agrees_atomicOf h) atomic_step).fixed

/-- What may follow the first atomic expression of an operand. -/
def operandRest (multiline : Bool) (left : Node) : Parser Node :=
  bounded (operandAfter atomic multiline left)

lemma operandRest_eq (left : Node) :
    operandRest multiline left = operandStep atomic multiline (operandRest multiline) left := by
  have hdescends : Descends 0 (operandStep atomic multiline) :=
    fun _ _ _ h left => agrees_operandStep agrees_atomic h left
  exact hdescends.bounded_eq (fun fuel left => operandAfter atomic multiline left fuel)
    (fun fuel => funext fun left => operandAfter_succ atomic left fuel) left

lemma operand_eq : operand multiline = atomic >>= operandRest multiline := rfl

/-- What may follow the operands of an expression and the operator behind them. -/
def chain (multiline : Bool) (before : Option (Node × BinaryOp)) : Parser Node :=
  bounded fun fuel => chainAfter (operand multiline) multiline fuel before

lemma chain_eq (before : Option (Node × BinaryOp)) :
    chain multiline before =
      chainStep (operand multiline) multiline (chain multiline) before := by
  have hdescends : Descends 1 (chainStep (operand multiline) multiline) :=
    fun _ _ _ h before => agrees_chainStep (agrees_operandOf agrees_atomic) h before
  exact hdescends.bounded_eq (chainAfter (operand multiline) multiline)
    (fun fuel => funext fun before => chainAfter_succ _ _ fuel before) before

lemma expression_eq : expression multiline = chain multiline none := rfl

/-- The names behind the first one of a selector. -/
def moreNames : Parser (List Text) := bounded fieldNames

lemma moreNames_eq :
    moreNames = (do
      if ← skip (.symbol .period) then
        let word ← take .word "selector: field name expected"
        return word.text :: (← moreNames)
      return []) := by
  have hstep (n : Nat) (p q : Parser (List Text)) (h : Agrees (n - 1) 0 p q) :
      Agrees n 0
        (do
          if ← skip (.symbol .period) then
            let word ← take .word "selector: field name expected"
            return word.text :: (← p)
          return [])
        (do
          if ← skip (.symbol .period) then
            let word ← take .word "selector: field name expected"
            return word.text :: (← q)
          return []) := by
    refine agrees_skipThen ?_ (agrees_pure _)
    refine (agrees_take _ _).zero.after fun word => ?_
    exact h.after fun names => agrees_pure _
  exact (isGuarded_bounded hstep fun _ => rfl).fixed

/-- The parts of a qualified name from its first word on. -/
def nameWords : Parser (List Text) := bounded nameParts

lemma nameWords_eq :
    nameWords = (do
      let word ← take .word "name expected"
      if ← skip (.symbol .colons) then
        return word.text :: (← nameWords)
      return [word.text]) := by
  have hstep (n : Nat) (p q : Parser (List Text)) (h : Agrees (n - 1) 0 p q) :
      Agrees n 0
        (do
          let word ← take .word "name expected"
          if ← skip (.symbol .colons) then
            return word.text :: (← p)
          return [word.text])
        (do
          let word ← take .word "name expected"
          if ← skip (.symbol .colons) then
            return word.text :: (← q)
          return [word.text]) := by
    refine (agrees_take _ _).zero.after fun word => agrees_skipThen ?_ (agrees_pure _)
    exact h.after fun names => agrees_pure _
  exact (isGuarded_bounded hstep fun _ => rfl).fixed

lemma type_eq : type = typeOf type :=
  (isGuarded_bounded (fun _ _ _ h => agrees_typeOf h) type_step).fixed

lemma statements_eq : statements = statementsOf statements :=
  (isGuarded_bounded (fun _ _ _ h => agrees_statementsOf h) statements_step).fixed

/-- A list is read member by member. Its end takes `stop` tokens. -/
lemma IsLoop.step_eq {p : Parser (List α)} {atEnd : Parser Bool}
    {alternatives : List (Parser (Option α))} (h : IsLoop p atEnd alternatives) (stop : Nat)
    (hend : ∀ n, Agrees n (fun b => if b then stop else 0) atEnd atEnd) :
    p = membersStep atEnd (firstOf alternatives) p := by
  have hstep (n : Nat) (p q : Parser (List α))
      (hpq : Agrees (n - 1) (fun xs => xs.length + stop) p q) :
      Agrees n (fun xs => xs.length + stop) (membersStep atEnd (firstOf alternatives) p)
        (membersStep atEnd (firstOf alternatives) q) :=
    agrees_membersStep (hend n) (agrees_firstOf h.forall₂) hpq
  have hfixed := (isGuarded_bounded hstep (membersWithin_run atEnd (firstOf alternatives))).fixed
  rw [h.loop]
  exact hfixed

lemma IsLoop.until_eq {p : Parser (List α)} {closing : Symbol}
    {alternatives : List (Parser (Option α))}
    (h : IsLoop p (skip (.symbol closing)) alternatives) :
    p = membersStep (skip (.symbol closing)) (firstOf alternatives) p :=
  h.step_eq 1 fun _ => (agrees_skip _).mono (fun b => by cases b <;> simp) le_rfl

lemma IsLoop.naked_eq {p : Parser (List α)} {stops : List TokenKind}
    {alternatives : List (Parser (Option α))} (h : IsLoop p (nakedEnd stops) alternatives) :
    p = membersStep (nakedEnd stops) (firstOf alternatives) p :=
  h.step_eq 0 fun _ => agrees_peekKind?.after fun _ => agrees_gain (by simp)

def fileMembers : List (Parser (Option Node)) :=
  [member comment, member constantDef, member functionDef, member importList, newline, semicolon,
    member typeDef]

lemma file_eq : file = membersStep atEnd (firstOf fileMembers) file :=
  isLoop_file.step_eq 0 fun _ => agrees_peek?.after fun _ => agrees_gain (by simp)

end DpLang.Parser
