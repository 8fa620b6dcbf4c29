import DpLang.Grammar.Declaration
import DpLang.Proofs.Plan

/-!
# Types of parameters

A parameter without a type has the type of the first parameter behind it that is written with one. So
only the last parameter needs a type of its own; if it has none, the type is missing where it stops.
-/

namespace DpLang

namespace Node

def takesType : Node → Bool
  | parameter _ _ _ _ => true
  | _ => false

/-- The type with which a parameter is written. -/
def ownType? : Node → Option TypeSpec
  | parameter _ _ type _ => type
  | _ => none

end Node

namespace Parser

variable {n m : Node} {nodes filled : List Node} {next : Option TypeSpec}

/-- What becomes of the first node when types are filled in. A parameter has its own type or else the
next one, and then its type is the next one for what stands in front of it. Anything else stays as it
is. -/
lemma filledTypes_cons_ok (h : filledTypes (n :: nodes) = .ok (filled, next)) :
    ∃ others type, filledTypes nodes = .ok (others, type) ∧
      ((∃ start name own stop spec, n = .parameter start name own stop ∧ own.or type = some spec ∧
        filled = .parameter start name (some spec) stop :: others ∧ next = some spec) ∨
      n.takesType = false ∧ filled = n :: others ∧ next = type) := by
  rw [filledTypes] at h
  obtain ⟨⟨others, type⟩, hrest, h⟩ := of_bind_ok h
  refine ⟨others, type, hrest, ?_⟩
  cases n with
  | parameter start name own stop =>
    cases own with
    | some own =>
      obtain ⟨rfl, rfl⟩ := Prod.mk.inj (Except.ok.inj h)
      exact .inl ⟨start, name, some own, stop, own, rfl, rfl, rfl, rfl⟩
    | none =>
      cases type with
      | none => cases h
      | some type =>
        obtain ⟨rfl, rfl⟩ := Prod.mk.inj (Except.ok.inj h)
        exact .inl ⟨start, name, none, stop, type, rfl, rfl, rfl, rfl⟩
  | _ =>
    obtain ⟨rfl, rfl⟩ := Prod.mk.inj (Except.ok.inj h)
    exact .inr ⟨rfl, rfl, rfl⟩

lemma filledTypes_cons_error {report : Report} (h : filledTypes (n :: nodes) = .error report) :
    filledTypes nodes = .error report ∨
      ∃ start name stop others, n = .parameter start name none stop ∧
        filledTypes nodes = .ok (others, none) ∧ report = .ofFault stop .missingParameterType := by
  rw [filledTypes] at h
  cases hrest : filledTypes nodes with
  | error inner =>
    rw [hrest] at h
    exact .inl (congrArg _ (Except.error.inj h))
  | ok result =>
    obtain ⟨others, type⟩ := result
    rw [hrest] at h
    cases n with
    | parameter start name own stop =>
      cases own with
      | some own => cases h
      | none =>
        cases type with
        | some type => cases h
        | none => exact .inr ⟨start, name, stop, others, rfl, rfl, (Except.error.inj h).symm⟩
    | _ => cases h

lemma exists_filledTypes (h : fillTypes nodes = .ok filled) : ∃ next, filledTypes nodes = .ok (filled, next) := by
  unfold fillTypes at h
  obtain ⟨⟨_, next⟩, hrun, h⟩ := of_bind_ok h
  obtain rfl := Except.ok.inj h
  exact ⟨next, hrun⟩

lemma filledTypes_of_error {report : Report} (h : fillTypes nodes = .error report) :
    filledTypes nodes = .error report := by
  unfold fillTypes at h
  cases hrun : filledTypes nodes with
  | error inner => rw [hrun] at h; rw [Except.error.inj h]
  | ok result => rw [hrun] at h; cases h

def lastParameter? (nodes : List Node) : Option Node := nodes.reverse.find? Node.takesType

/-- The nodes after types have been filled in: each parameter has the type of the first parameter, from
itself on, that is written with one, and all else is as it was. -/
structure TypesFilled (nodes filled : List Node) : Prop where
  length : filled.length = nodes.length
  parameter : ∀ (i : Nat) start name own stop, nodes[i]? = some (.parameter start name own stop) →
    ∃ spec, (nodes.drop i).findSome? Node.ownType? = some spec ∧
      filled[i]? = some (.parameter start name (some spec) stop)
  other : ∀ (i : Nat) n, nodes[i]? = some n → n.takesType = false → filled[i]? = some n

lemma TypesFilled.cons (h : TypesFilled nodes filled)
    (hparameter : ∀ start name own stop, n = .parameter start name own stop →
      ∃ spec, (n :: nodes).findSome? Node.ownType? = some spec ∧ m = .parameter start name (some spec) stop)
    (hother : n.takesType = false → m = n) : TypesFilled (n :: nodes) (m :: filled) where
  length := congrArg Nat.succ h.length
  parameter i start name own stop hi := by
    cases i with
    | zero =>
      obtain ⟨spec, hspec, rfl⟩ := hparameter start name own stop (Option.some.inj hi)
      exact ⟨spec, hspec, rfl⟩
    | succ i => exact h.parameter i start name own stop hi
  other i k hi hk := by
    cases i with
    | zero =>
      obtain rfl := Option.some.inj hi
      exact congrArg some (hother hk)
    | succ i => exact h.other i k hi hk

lemma ownType?_of_other (h : n.takesType = false) : n.ownType? = none := by
  cases n with
  | parameter start name own stop => cases h
  | _ => rfl

/-- Types that are filled in come from the right, and the type that is passed on is the first one. -/
lemma typesFilled_of_ok (h : filledTypes nodes = .ok (filled, next)) :
    TypesFilled nodes filled ∧ next = nodes.findSome? Node.ownType? := by
  induction nodes generalizing filled next with
  | nil =>
    obtain ⟨rfl, rfl⟩ := Prod.mk.inj (Except.ok.inj h)
    exact ⟨⟨rfl, by simp, by simp⟩, rfl⟩
  | cons n nodes ih =>
    obtain ⟨others, type, hrest, hstep⟩ := filledTypes_cons_ok h
    obtain ⟨hfilled, rfl⟩ := ih hrest
    rcases hstep with ⟨start, name, own, stop, spec, rfl, hspec, rfl, rfl⟩ | ⟨hn, rfl, rfl⟩
    · have hfirst : (Node.parameter start name own stop :: nodes).findSome? Node.ownType? = some spec := by
        rw [List.findSome?_cons, ← hspec]
        cases own <;> rfl
      refine ⟨hfilled.cons (fun start' name' own' stop' hsame => ?_) fun hn => Bool.noConfusion hn, hfirst.symm⟩
      cases hsame
      exact ⟨spec, hfirst, rfl⟩
    · refine ⟨hfilled.cons ?_ fun _ => rfl, by rw [List.findSome?_cons, ownType?_of_other hn]⟩
      rintro start name own stop rfl
      cases hn

lemma lastParameter?_cons (n : Node) (nodes : List Node) :
    lastParameter? (n :: nodes) = (lastParameter? nodes).or (if n.takesType then some n else none) := by
  rw [lastParameter?, List.reverse_cons, List.find?_append, List.find?_singleton]
  rfl

lemma untyped_of_error {report : Report} (h : filledTypes nodes = .error report) :
    ∃ last, lastParameter? nodes = some last ∧ last.ownType? = none ∧
      report = .ofFault last.stop .missingParameterType := by
  induction nodes with
  | nil => cases h
  | cons n nodes ih =>
    rcases filledTypes_cons_error h with h | ⟨start, name, stop, others, rfl, hrest, rfl⟩
    · obtain ⟨last, hlast, hnone, hreport⟩ := ih h
      exact ⟨last, by rw [lastParameter?_cons, hlast, Option.some_or], hnone, hreport⟩
    · obtain ⟨hfilled, hnext⟩ := typesFilled_of_ok hrest
      have hnone := List.findSome?_eq_none_iff.1 hnext.symm
      -- another parameter would have a type, and that would have been the next one
      have hlast : lastParameter? nodes = none := by
        rw [lastParameter?, List.find?_eq_none]
        intro k hk htakes
        obtain ⟨i, hi⟩ := List.mem_iff_getElem?.1 (List.mem_reverse.1 hk)
        cases k with
        | parameter start' name' own stop' =>
          obtain ⟨spec, hspec, -⟩ := hfilled.parameter i start' name' own stop' hi
          obtain ⟨typed, htyped, hown⟩ := List.exists_of_findSome?_eq_some hspec
          rw [hnone typed ((List.drop_sublist i nodes).mem htyped)] at hown
          cases hown
        | _ => cases htakes
      exact ⟨.parameter start name none stop, by rw [lastParameter?_cons, hlast]; rfl, rfl, rfl⟩

lemma typed_of_ok {last : Node} (h : filledTypes nodes = .ok (filled, next))
    (hlast : lastParameter? nodes = some last) : last.ownType? ≠ none := by
  intro hnone
  obtain ⟨htakes, behind, before, hsplit, hbehind⟩ := List.find?_eq_some_iff_append.1 hlast
  obtain rfl : nodes = before.reverse ++ last :: behind.reverse := by
    rw [← List.reverse_reverse nodes, hsplit, List.reverse_append, List.reverse_cons]
    simp
  cases last with
  | parameter start name own stop =>
    obtain ⟨spec, hspec, -⟩ :=
      (typesFilled_of_ok h).1.parameter before.reverse.length start name own stop (by simp)
    obtain ⟨typed, htyped, hown⟩ := List.exists_of_findSome?_eq_some hspec
    rw [List.drop_left] at htyped
    rcases List.mem_cons.1 htyped with rfl | htyped
    · rw [hnone] at hown
      cases hown
    · rw [ownType?_of_other (by simpa using hbehind typed (List.mem_reverse.1 htyped))] at hown
      cases hown
  | _ => cases htakes

/-- Types are filled in from the right. This fails exactly if the last parameter has no type, with the
type missing where that parameter stops. Otherwise each parameter has the type of the first parameter,
from itself on, that is written with one, and all else is as it was. -/
theorem fillTypes_from_right (nodes : List Node) :
    (∀ report, fillTypes nodes = .error report ↔
      ∃ last, lastParameter? nodes = some last ∧ last.ownType? = none ∧
        report = .ofFault last.stop .missingParameterType) ∧
    ((∀ last, lastParameter? nodes = some last → last.ownType? ≠ none) →
      ∃ filled, fillTypes nodes = .ok filled ∧ TypesFilled nodes filled) := by
  refine ⟨fun report => ⟨fun h => untyped_of_error (filledTypes_of_error h), ?_⟩, fun htyped => ?_⟩
  · rintro ⟨last, hlast, hnone, rfl⟩
    cases hrun : fillTypes nodes with
    | error report =>
      obtain ⟨last', hlast', -, rfl⟩ := untyped_of_error (filledTypes_of_error hrun)
      rw [hlast] at hlast'
      obtain rfl := Option.some.inj hlast'
      rfl
    | ok filled =>
      obtain ⟨next, hfilled⟩ := exists_filledTypes hrun
      exact absurd hnone (typed_of_ok hfilled hlast)
  · cases hrun : fillTypes nodes with
    | error report =>
      obtain ⟨last, hlast, hnone, -⟩ := untyped_of_error (filledTypes_of_error hrun)
      exact absurd hnone (htyped last hlast)
    | ok filled =>
      obtain ⟨next, hfilled⟩ := exists_filledTypes hrun
      exact ⟨filled, rfl, (typesFilled_of_ok hfilled).1⟩

end Parser

end DpLang
