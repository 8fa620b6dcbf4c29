import DpLang.Layout.Declaration
import Mathlib.Data.List.DropRight
import Mathlib.Tactic.Lemma

/-!
# Function bodies

Imports are not written with the body of the function they stand in. Where a function has no results,
neither are the bare returns that nothing but comments and bare returns follow. All other statements
and all comments stay, in their order.
-/

namespace DpLang

section Members

variable {n : Node} {nodes : List Node}

lemma dropBareReturns_cons (n : Node) (nodes : List Node) :
    dropBareReturns (n :: nodes) =
      if n.isBareReturn && (dropBareReturns nodes).all Node.isComment then dropBareReturns nodes
      else n :: dropBareReturns nodes := rfl

lemma dropBareReturns_sublist (nodes : List Node) : List.Sublist (dropBareReturns nodes) nodes := by
  induction nodes with
  | nil => exact .slnil
  | cons node nodes ih =>
    rw [dropBareReturns_cons]
    split
    · exact ih.cons node
    · exact ih.cons_cons node

lemma functionBody_sublist (results body : List Node) :
    List.Sublist (functionBody results body) body := by
  unfold functionBody
  dsimp only
  split
  · exact (dropBareReturns_sublist _).trans List.filter_sublist
  · exact List.filter_sublist

lemma mem_dropBareReturns (h : n ∈ nodes) : n ∈ dropBareReturns nodes ∨ n.isBareReturn = true := by
  induction nodes with
  | nil => exact absurd h List.not_mem_nil
  | cons first nodes ih =>
    rw [dropBareReturns_cons]
    split_ifs with hdrop
    · rcases List.mem_cons.1 h with rfl | h
      · exact .inr (Bool.and_eq_true_iff.1 hdrop).1
      · exact ih h
    · rcases List.mem_cons.1 h with rfl | h
      · exact .inl List.mem_cons_self
      · exact (ih h).imp_left (List.mem_cons_of_mem first)

lemma mem_functionBody {results : List Node} (h : n ∈ nodes) :
    n ∈ functionBody results nodes ∨ n.isImport = true ∨ n.isBareReturn = true := by
  by_cases himport : n.isImport = true
  · exact .inr (.inl himport)
  · have hkept : n ∈ withoutImports nodes := List.mem_filter.2 ⟨h, by simpa using himport⟩
    unfold functionBody
    dsimp only
    split
    · exact (mem_dropBareReturns hkept).imp_right .inr
    · exact .inl hkept

end Members

section Ends

variable {α : Type} {p : α → Bool}

/-- The longest end of a list that has only members with a property. -/
structure IsLongestEnd (p : α → Bool) (all back : List α) : Prop where
  suffix : back <:+ all
  each : ∀ x ∈ back, p x = true
  longest : ∀ other, other <:+ all → (∀ x ∈ other, p x = true) → other.length ≤ back.length

lemma isLongestEnd_append {front back : List α} (hfront : ∀ x ∈ front.getLast?, p x = false)
    (hback : ∀ x ∈ back, p x = true) : IsLongestEnd p (front ++ back) back where
  suffix := List.suffix_append front back
  each := hback
  longest other hother heach := by
    by_contra hlonger
    obtain ⟨middle, rfl⟩ :=
      List.suffix_of_suffix_length_le (List.suffix_append front back) hother (by omega)
    obtain ⟨before, hbefore⟩ := hother
    rw [← List.append_assoc] at hbefore
    obtain rfl := List.append_cancel_right hbefore
    have hne : middle ≠ [] := by
      rintro rfl
      exact hlonger le_rfl
    rw [List.getLast?_append_of_ne_nil _ hne, List.getLast?_eq_some_getLast hne] at hfront
    have hlast := heach _ (List.mem_append_left back (List.getLast_mem hne))
    rw [hfront _ rfl] at hlast
    cases hlast

lemma exists_longestEnd (p : α → Bool) (all : List α) :
    ∃ front back, all = front ++ back ∧ (∀ x ∈ front.getLast?, p x = false) ∧ ∀ x ∈ back, p x = true := by
  refine ⟨all.rdropWhile p, all.rtakeWhile p, List.rdropWhile_append_rtakeWhile.symm, fun x hx => ?_,
    fun x hx => List.mem_rtakeWhile_imp hx⟩
  obtain ⟨hne, rfl⟩ := List.mem_getLast?_eq_getLast hx
  exact Bool.eq_false_iff.2 (List.rdropWhile_last_not p all hne)

end Ends

section Returns

variable {nodes front back : List Node}

/-- Is the node a comment or a bare return? -/
def Node.isIdle (n : Node) : Bool := n.isComment || n.isBareReturn

lemma isBareReturn_of_comment {n : Node} (h : n.isComment = true) : n.isBareReturn = false := by
  cases n with
  | comment start source => rfl
  | _ => cases h

lemma dropBareReturns_of_idle (h : ∀ n ∈ nodes, n.isIdle = true) :
    dropBareReturns nodes = nodes.filter Node.isComment := by
  induction nodes with
  | nil => rfl
  | cons n nodes ih =>
    rw [List.forall_mem_cons] at h
    rw [dropBareReturns_cons, ih h.2]
    cases hn : n.isComment with
    | true => rw [isBareReturn_of_comment hn, if_neg (by simp), List.filter_cons_of_pos hn]
    | false =>
      have hbare : n.isBareReturn = true := by simpa [Node.isIdle, hn] using h.1
      rw [hbare, if_pos (by simp), List.filter_cons_of_neg (by simp [hn])]

lemma dropBareReturns_append (hfront : ∀ n ∈ front.getLast?, n.isIdle = false)
    (hback : ∀ n ∈ back, n.isIdle = true) :
    dropBareReturns (front ++ back) = front ++ back.filter Node.isComment := by
  induction front with
  | nil => exact dropBareReturns_of_idle hback
  | cons n front ih =>
    cases front with
    | nil =>
      have hbare : n.isBareReturn = false := (Bool.or_eq_false_iff.1 (hfront n rfl)).2
      rw [List.cons_append, dropBareReturns_cons, hbare, if_neg (by simp), ih (by simp)]
      rfl
    | cons m front =>
      -- the last statement in front of the end is no comment, so that the first one stays
      have hlast := hfront _ (List.getLast?_eq_some_getLast (List.cons_ne_nil m front))
      have hcomment := (Bool.or_eq_false_iff.1 hlast).1
      have hkeep : ¬(n.isBareReturn && (m :: front ++ back.filter Node.isComment).all Node.isComment) = true := by
        intro hall
        have hmem := List.mem_append_left (back.filter Node.isComment)
          (List.getLast_mem (List.cons_ne_nil m front))
        rw [List.all_eq_true.1 (Bool.and_eq_true_iff.1 hall).2 _ hmem] at hcomment
        cases hcomment
      rw [List.cons_append, dropBareReturns_cons, ih hfront, if_neg hkeep]
      rfl

lemma withoutImports_of_sublist {body : List Node} (h : List.Sublist nodes (withoutImports body)) :
    withoutImports nodes = nodes := by
  rw [withoutImports, List.filter_eq_self]
  exact fun n hn => (List.mem_filter.1 (h.subset hn)).2

/-- The body of a function with results is written without its imports only. If there are no results,
the bare returns in its longest end of comments and bare returns are left out as well. What is left of
a body is a body of which nothing is left out. -/
theorem functionBody_trims (results body : List Node) :
    (results ≠ [] → functionBody results body = withoutImports body) ∧
    (results = [] → ∃ front back, withoutImports body = front ++ back ∧
      IsLongestEnd Node.isIdle (withoutImports body) back ∧
      functionBody results body = front ++ back.filter Node.isComment) ∧
    functionBody results (functionBody results body) = functionBody results body := by
  cases results with
  | cons result results =>
    have hsame : withoutImports (withoutImports body) = withoutImports body :=
      withoutImports_of_sublist (List.Sublist.refl _)
    exact ⟨fun _ => rfl, fun h => absurd h (List.cons_ne_nil _ _), hsame⟩
  | nil =>
    obtain ⟨front, back, hbody, hfront, hback⟩ := exists_longestEnd Node.isIdle (withoutImports body)
    have htrimmed : functionBody [] body = front ++ back.filter Node.isComment := by
      change dropBareReturns (withoutImports body) = _
      rw [hbody, dropBareReturns_append hfront hback]
    refine ⟨fun h => absurd rfl h, fun _ => ⟨front, back, hbody, ?_, htrimmed⟩, ?_⟩
    · rw [hbody]
      exact isLongestEnd_append hfront hback
    · have hkept : withoutImports (functionBody [] body) = functionBody [] body :=
        withoutImports_of_sublist (dropBareReturns_sublist _)
      have hcomments : ∀ n ∈ back.filter Node.isComment, n.isIdle = true := fun n hn => by
        rw [Node.isIdle, (List.mem_filter.1 hn).2, Bool.true_or]
      change dropBareReturns (withoutImports (functionBody [] body)) = _
      rw [hkept, htrimmed, dropBareReturns_append hfront hcomments, List.filter_filter]
      simp

end Returns

end DpLang
