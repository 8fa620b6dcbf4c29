import DpLang.Proofs.Rejection
import Mathlib

/-!
# Progress

A parser makes progress if it never stalls and a success leaves the cursor some tokens further on.
How many tokens may depend on the result: the tokens of a list are at least as many as its members.
Two parsers that call different parsers where fewer tokens are left agree if those do, so a bound
on the depth of a construct does not matter once it exceeds the number of tokens.
-/

namespace DpLang

/-- At least `k` tokens that are not blank stand between the cursors. -/
def Cursor.Ahead (k : Nat) (c d : Cursor) : Prop :=
  ∃ passed, c.rest = passed ++ d.rest ∧ d.index = c.index + passed.length ∧
    k ≤ passed.countP fun t => !t.isSpace

namespace Cursor.Ahead

variable {j k : Nat} {c d e : Cursor}

lemma refl (c : Cursor) : c.Ahead 0 c := ⟨[], rfl, rfl, le_rfl⟩

lemma mono (h : c.Ahead k d) (hj : j ≤ k) : c.Ahead j d := by
  obtain ⟨passed, hrest, hindex, hk⟩ := h
  exact ⟨passed, hrest, hindex, hj.trans hk⟩

lemma trans (h : c.Ahead j d) (h' : d.Ahead k e) : c.Ahead (j + k) e := by
  obtain ⟨passed, hrest, hindex, hj⟩ := h
  obtain ⟨passed', hrest', hindex', hk⟩ := h'
  refine ⟨passed ++ passed', ?_, ?_, ?_⟩
  · rw [hrest, hrest', List.append_assoc]
  · rw [hindex', hindex, List.length_append]
    omega
  · rw [List.countP_append]
    omega

lemma length (h : c.Ahead k d) : d.rest.length + k ≤ c.rest.length := by
  obtain ⟨passed, hrest, -, hk⟩ := h
  have hcount := hk.trans List.countP_le_length
  rw [hrest, List.length_append]
  omega

lemma index (h : c.Ahead k d) : c.index + k ≤ d.index := by
  obtain ⟨passed, -, hindex, hk⟩ := h
  have hcount := hk.trans List.countP_le_length
  omega

lemma peek?_ne_none (h : c.Ahead 1 d) : c.peek? ≠ none := by
  obtain ⟨passed, hrest, -, hk⟩ := h
  obtain ⟨t, ht, hspace⟩ := List.countP_pos_iff.1 hk
  intro hnone
  have hall := List.dropWhile_eq_nil_iff.1 (List.head?_eq_none_iff.1 hnone)
  have := hall t (by rw [hrest]; exact List.mem_append_left _ ht)
  simp [this] at hspace

lemma settle (c : Cursor) : c.Ahead 0 c.settle :=
  ⟨c.rest.takeWhile Token.isSpace, List.takeWhile_append_dropWhile.symm, rfl, Nat.zero_le _⟩

lemma behind {t : Token} {ts : List Token} (h : c.settle.rest = t :: ts) :
    c.Ahead 1 (c.settle.behind t ts) := by
  obtain ⟨passed, hrest, hindex, -⟩ := settle c
  refine ⟨passed ++ t :: ts.takeWhile Token.isSpace, ?_, ?_, ?_⟩
  · rw [hrest, h, List.append_assoc, List.cons_append, behind_rest, List.takeWhile_append_dropWhile]
  · change c.settle.index + 1 + (ts.takeWhile Token.isSpace).length = _
    rw [hindex, List.length_append, List.length_cons]
    omega
  · have ht := List.head?_dropWhile_not Token.isSpace c.rest
    rw [← settle_rest, h] at ht
    rw [List.countP_append, List.countP_cons_of_pos (by simpa using ht)]
    omega

end Cursor.Ahead

namespace Parser

variable {α β : Type} {j k : α → Nat} {m n : Nat} {p q : Parser α} {c d : Cursor}
  {kind : TokenKind}

/-- The outcome at a cursor is a rejection, or a result with the cursor `gain` tokens ahead. -/
def Moves (gain : α → Nat) (c : Cursor) : Except Failure (α × Cursor) → Prop
  | .ok (a, d) => c.Ahead (gain a) d
  | .error (.rejected _) => True
  | .error .stalled => False

/-- The parsers do the same on cursors with less than `n` tokens, and make progress. -/
def Agrees (n : Nat) (gain : α → Nat) (p q : Parser α) : Prop :=
  ∀ c, c.rest.length < n → p c = q c ∧ Moves gain c (p c)

lemma Moves.after {x : Except Failure (α × Cursor)} {i : Nat} (hx : Moves (fun a => k a - i) d x)
    (h : c.Ahead i d) : Moves k c x := by
  match x with
  | .ok (a, e) => exact (h.trans hx).mono (show k a ≤ i + (k a - i) by omega)
  | .error (.rejected _) => trivial
  | .error .stalled => exact hx

lemma Moves.rejected_of_rejects (h : Rejects p c) : Moves k c (p c) := by
  obtain ⟨report, h⟩ := h
  rw [h]
  trivial

lemma Agrees.mono (h : Agrees n k p q) (hj : ∀ a, j a ≤ k a) (hm : m ≤ n) : Agrees m j p q := by
  intro c hc
  obtain ⟨hpq, hp⟩ := h c (by omega)
  refine ⟨hpq, ?_⟩
  generalize p c = x at hp
  match x with
  | .ok (a, d) => exact Cursor.Ahead.mono hp (hj a)
  | .error (.rejected _) => trivial
  | .error .stalled => exact hp

lemma Agrees.zero (h : Agrees n k p q) : Agrees n 0 p q := h.mono (fun _ => Nat.zero_le _) le_rfl

lemma Agrees.shorter (h : Agrees n k p q) (hm : m ≤ n) : Agrees m k p q :=
  h.mono (fun _ => le_rfl) hm

lemma agrees_none (p q : Parser α) : Agrees 0 k p q := fun _ hc => absurd hc (Nat.not_lt_zero _)

lemma agrees_of_moves (h : ∀ c, Moves k c (p c)) : Agrees n k p p := fun c _ => ⟨rfl, h c⟩

/-- One parser after another. What the first one gains need not be gained by the second. -/
lemma Agrees.bind {f g : α → Parser β} {l : β → Nat} (h : Agrees n k p q)
    (hf : ∀ a, Agrees (n - k a) (fun b => l b - k a) (f a) (g a)) :
    Agrees n l (p >>= f) (q >>= g) := by
  intro c hc
  obtain ⟨hpq, hp⟩ := h c hc
  rw [bind_run, bind_run, ← hpq]
  generalize p c = x at hp
  match x with
  | .error (.rejected _) => exact ⟨rfl, trivial⟩
  | .error .stalled => exact absurd hp id
  | .ok (a, d) =>
    have hlength := Cursor.Ahead.length hp
    obtain ⟨hfg, hd⟩ := hf a d (by omega)
    exact ⟨hfg, hd.after hp⟩

lemma Agrees.after {f g : α → Parser β} {l : β → Nat} (h : Agrees n 0 p q)
    (hf : ∀ a, Agrees n l (f a) (g a)) : Agrees n l (p >>= f) (q >>= g) := h.bind hf

lemma Agrees.andThen {f g : α → Parser β} (h : Agrees n 1 p q)
    (hf : ∀ a, Agrees (n - 1) 0 (f a) (g a)) : Agrees n 1 (p >>= f) (q >>= g) := h.bind hf

lemma Agrees.map {l : β → Nat} (h : Agrees n k p q) (f : α → β) (hl : ∀ a, l (f a) ≤ k a) :
    Agrees n l (f <$> p) (f <$> q) := by
  intro c hc
  obtain ⟨hpq, hp⟩ := h c hc
  rw [map_run, map_run, ← hpq]
  generalize p c = x at hp
  match x with
  | .ok (a, d) => exact ⟨rfl, Cursor.Ahead.mono hp (hl a)⟩
  | .error (.rejected _) => exact ⟨rfl, trivial⟩
  | .error .stalled => exact absurd hp id

section Primitives

lemma agrees_gain {a : α} (h : k a = 0) : Agrees n k (pure a) (pure a) := by
  refine agrees_of_moves fun c => ?_
  change c.Ahead (k a) c
  rw [h]
  exact .refl c

lemma agrees_pure (a : α) : Agrees n 0 (pure a) (pure a) := agrees_gain rfl

lemma agrees_reject (position : Position) (fault : Fault) :
    Agrees n k (reject position fault) (reject position fault) :=
  agrees_of_moves fun _ => trivial

lemma agrees_rejectBind (position : Position) (fault : Fault) (f : β → Parser α) :
    Agrees n k (reject position fault >>= f) (reject position fault >>= f) :=
  agrees_of_moves fun _ => trivial

lemma agrees_lastStop : Agrees n 0 lastStop lastStop := agrees_of_moves fun c => .refl c

lemma agrees_here : Agrees n 0 here here := agrees_of_moves fun c => .settle c

lemma agrees_peekKind? : Agrees n 0 peekKind? peekKind? := agrees_of_moves fun c => .settle c

lemma agrees_peek? : Agrees n 0 peek? peek? := agrees_of_moves fun c => .settle c

lemma ahead_skim (kind : TokenKind) (c : Cursor) :
    c.Ahead (c.skim kind).1.isSome.toNat (c.skim kind).2 := by
  cases hrest : c.settle.rest with
  | nil =>
    rw [Cursor.skim_of_nil hrest]
    exact .settle c
  | cons t ts =>
    by_cases hk : t.kind = kind
    · rw [Cursor.skim_of_kind hrest hk]
      exact .behind hrest
    · rw [Cursor.skim_of_ne hrest hk]
      exact .settle c

lemma agrees_skim (kind : TokenKind) :
    Agrees n (fun o => o.isSome.toNat) (skim kind) (skim kind) :=
  agrees_of_moves fun c => ahead_skim kind c

lemma agrees_skip (kind : TokenKind) : Agrees n Bool.toNat (skip kind) (skip kind) :=
  agrees_of_moves fun c => ahead_skim kind c

lemma agrees_take (kind : TokenKind) (message : Text) :
    Agrees n 1 (take kind message) (take kind message) := by
  refine agrees_of_moves fun c => ?_
  have hskim := ahead_skim kind c
  rw [take_run]
  generalize c.skim kind = x at hskim
  match x with
  | (some t, d) => exact hskim
  | (none, d) => trivial

lemma agrees_skipThen {f g : Bool → Parser α}
    (htrue : Agrees (n - 1) (fun a => k a - 1) (f true) (g true))
    (hfalse : Agrees n k (f false) (g false)) : Agrees n k (skip kind >>= f) (skip kind >>= g) := by
  refine (agrees_skip kind).bind fun b => ?_
  cases b with
  | true => exact htrue
  | false => exact hfalse

lemma agrees_skimThen {f g : Option Token → Parser α}
    (hsome : ∀ t, Agrees (n - 1) (fun a => k a - 1) (f (some t)) (g (some t)))
    (hnone : Agrees n k (f none) (g none)) : Agrees n k (skim kind >>= f) (skim kind >>= g) := by
  refine (agrees_skim kind).bind fun o => ?_
  cases o with
  | some t => exact hsome t
  | none => exact hnone

lemma skip_of_peeked (h : c.peekKind? = some kind) :
    ∃ d, skip kind c = .ok (true, d) ∧ c.Ahead 1 d := by
  obtain ⟨t, ts, hrest, ht⟩ := rest_of_peekKind h
  have hskim := Cursor.skim_of_kind hrest ht
  refine ⟨_, ?_, .behind hrest⟩
  change Except.ok ((c.skim kind).1.isSome, (c.skim kind).2) = _
  rw [hskim]
  rfl

lemma agrees_rejectHere (fault : Fault) :
    Agrees n k (here >>= fun p => reject p fault) (here >>= fun p => reject p fault) :=
  agrees_here.after fun _ => agrees_reject _ _

lemma agrees_rejectHereBind (fault : Fault) (f : β → Parser α) :
    Agrees n k (here >>= fun p => reject p fault >>= f) (here >>= fun p => reject p fault >>= f) :=
  agrees_here.after fun _ => agrees_rejectBind _ _ _

end Primitives

section Recursion

variable {ι : Type} {step : (ι → Parser α) → ι → Parser α}

/-- A recursion calls itself only where fewer tokens are left. -/
def Descends (gain : α → Nat) (step : (ι → Parser α) → ι → Parser α) : Prop :=
  ∀ n p q, (∀ x, Agrees (n - 1) gain (p x) (q x)) → ∀ x, Agrees n gain (step p x) (step q x)

/-- Bounds on the depth that exceed the number of tokens do not matter. -/
lemma Descends.agrees (hstep : Descends k step) (within : Nat → ι → Parser α)
    (hwithin : ∀ fuel, within (fuel + 1) = step (within fuel)) {i l : Nat} (hi : n ≤ i)
    (hl : n ≤ l) (x : ι) : Agrees n k (within i x) (within l x) := by
  induction i generalizing n l x with
  | zero =>
    obtain rfl : n = 0 := by omega
    exact agrees_none _ _
  | succ i ih =>
    cases l with
    | zero =>
      obtain rfl : n = 0 := by omega
      exact agrees_none _ _
    | succ l =>
      rw [hwithin, hwithin]
      exact hstep n _ _ (fun y => ih (by omega) (by omega) y) x

/-- A recursion with as many steps as there are tokens is one without any bound. -/
lemma Descends.bounded_eq (hstep : Descends k step) (within : Nat → ι → Parser α)
    (hwithin : ∀ fuel, within (fuel + 1) = step (within fuel)) (x : ι) :
    bounded (fun fuel => within fuel x) = step (fun y => bounded fun fuel => within fuel y) x := by
  funext c
  have hinner (y : ι) : Agrees c.rest.length k (within c.rest.length y)
      (bounded fun fuel => within fuel y) :=
    fun d hd => hstep.agrees within hwithin hd le_rfl y d (Nat.lt_succ_self _)
  change within (c.rest.length + 1) x c = _
  rw [hwithin]
  exact (hstep (c.rest.length + 1) _ _ hinner x c (Nat.lt_succ_self _)).1

end Recursion

section Lists

lemma agrees_firstOf {ps qs : List (Parser α)} (h : List.Forall₂ (Agrees n k) ps qs) :
    Agrees n k (firstOf ps) (firstOf qs) := by
  intro c hc
  unfold firstOf
  generalize ([] : List Report) = reports
  induction h generalizing reports with
  | nil => exact ⟨rfl, .rejected_of_rejects (rejects_firstAfter_nil reports)⟩
  | @cons p q ps qs hpq _ ih =>
    obtain ⟨hsame, hp⟩ := hpq c hc
    rw [firstAfter_cons_run, firstAfter_cons_run, ← hsame]
    generalize p c = x at hp
    match x with
    | .ok (a, d) => exact ⟨rfl, hp⟩
    | .error (.rejected report) => exact ih (reports ++ [report])
    | .error .stalled => exact absurd hp id

lemma agrees_bounded {f g : Nat → Parser α} (h : ∀ m ≤ n, Agrees m k (f m) (g m)) :
    Agrees n k (bounded f) (bounded g) :=
  fun c hc => h (c.rest.length + 1) hc c (Nat.lt_succ_self _)

/-- One round of the loop over the members of a list, with the other rounds read by `others`. -/
def membersStep (atEnd : Parser Bool) (member : Parser (Option α)) (others : Parser (List α)) :
    Parser (List α) := do
  if ← atEnd then
    return []
  let found ← member
  let others ← others
  return found.toList ++ others

lemma agrees_membersStep {atEnd : Parser Bool} {member member' : Parser (Option α)} {stop : Nat}
    (hend : Agrees n (fun b => if b then stop else 0) atEnd atEnd) (hm : Agrees n 1 member member')
    {others others' : Parser (List α)}
    (ho : Agrees (n - 1) (fun xs => xs.length + stop) others others') :
    Agrees n (fun xs => xs.length + stop) (membersStep atEnd member others)
      (membersStep atEnd member' others') := by
  refine hend.bind fun ended => ?_
  cases ended with
  | true => exact agrees_gain (by simp)
  | false =>
    refine hm.bind fun found => ho.bind fun others => agrees_gain ?_
    have hfound : found.toList.length ≤ 1 := by cases found <;> simp
    simp only [Pi.one_apply, List.length_append]
    omega

lemma agrees_membersWithin {atEnd : Parser Bool} {member member' : Parser (Option α)} {stop : Nat}
    (hend : Agrees n (fun b => if b then stop else 0) atEnd atEnd) (hm : Agrees n 1 member member')
    {fuel : Nat} (hfuel : n ≤ fuel) :
    Agrees n (fun xs => xs.length + stop) (membersWithin atEnd member fuel)
      (membersWithin atEnd member' fuel) := by
  induction fuel generalizing n with
  | zero =>
    obtain rfl : n = 0 := by omega
    exact agrees_none _ _
  | succ fuel ih =>
    refine agrees_membersStep hend hm ?_
    exact ih (hend.shorter (Nat.sub_le n 1)) (hm.shorter (Nat.sub_le n 1)) (by omega)

lemma agrees_members {atEnd : Parser Bool} {ps qs : List (Parser (Option α))} {stop : Nat}
    (hend : Agrees n (fun b => if b then stop else 0) atEnd atEnd)
    (h : List.Forall₂ (Agrees n 1) ps qs) :
    Agrees n (fun xs => xs.length + stop) (members atEnd ps) (members atEnd qs) :=
  agrees_bounded fun _ hm =>
    agrees_membersWithin (hend.shorter hm) ((agrees_firstOf h).shorter hm) le_rfl

lemma agrees_membersUntil (closing : Symbol) {ps qs : List (Parser (Option α))}
    (h : List.Forall₂ (Agrees n 1) ps qs) :
    Agrees n (fun xs => xs.length + 1) (membersUntil closing ps) (membersUntil closing qs) := by
  refine agrees_members ((agrees_skip _).mono (fun b => ?_) le_rfl) h
  cases b <;> simp

lemma agrees_nakedMembers {ps qs : List (Parser (Option α))} (h : List.Forall₂ (Agrees n 1) ps qs)
    (stops : List TokenKind) :
    Agrees n List.length (nakedMembers ps stops) (nakedMembers qs stops) := by
  have hend : Agrees n (fun b => if b then 0 else 0)
      (peekKind? >>= fun kind => pure (endsNakedList kind || kind.any stops.contains))
      (peekKind? >>= fun kind => pure (endsNakedList kind || kind.any stops.contains)) :=
    agrees_peekKind?.after fun kind => agrees_gain (by simp)
  exact agrees_members hend h

lemma agrees_member (h : Agrees n 1 p q) : Agrees n 1 (member p) (member q) :=
  h.andThen fun _ => agrees_pure _

lemma agrees_comma : Agrees n 1 (comma : Parser (Option α)) comma :=
  (agrees_take _ _).andThen fun _ => agrees_pure _

lemma agrees_newline : Agrees n 1 (newline : Parser (Option α)) newline :=
  (agrees_take _ _).andThen fun _ => agrees_pure _

lemma agrees_semicolon : Agrees n 1 (semicolon : Parser (Option α)) semicolon :=
  (agrees_take _ _).andThen fun _ => agrees_pure _

lemma agrees_comment : Agrees n 1 comment comment :=
  (agrees_take _ _).andThen fun _ => agrees_pure _

lemma agrees_skipNewlinesWithin (fuel : Nat) :
    Agrees n 0 (skipNewlinesWithin fuel) (skipNewlinesWithin fuel) := by
  induction fuel generalizing n with
  | zero => exact agrees_pure ()
  | succ fuel ih => exact agrees_skipThen ih (agrees_pure ())

lemma agrees_skipNewlinesIf (multiline : Bool) :
    Agrees n 0 (skipNewlinesIf multiline) (skipNewlinesIf multiline) := by
  cases multiline with
  | false => exact agrees_pure ()
  | true => exact agrees_bounded fun m _ => agrees_skipNewlinesWithin m

end Lists

end Parser

end DpLang
