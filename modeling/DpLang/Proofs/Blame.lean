import DpLang.Proofs.Munch
import DpLang.Proofs.ProgressGrammar

/-!
# Where reports point

The report of a parser that fails points at a token that is not blank or at the end of the tokens,
and never in front of the cursor at which the parser started. Where several parsers were tried, the
report has one cause for each of them, and none of the causes points in front of it.
-/

namespace DpLang

section Places

/-- A place at which a token that is not blank starts, or at which the last token stops. -/
def IsPlace (tokens : List Token) (p : Position) : Prop :=
  (∃ t ∈ tokens, t.isSpace = false ∧ t.start = p) ∨ ∃ t ∈ tokens.getLast?, t.stop = p

/-- The tokens stand one behind the other. -/
structure Ascending (tokens : List Token) : Prop where
  starts : tokens.Pairwise fun t u => t.start.offset ≤ u.start.offset
  stop : ∀ last ∈ tokens.getLast?, ∀ t ∈ tokens, t.start.offset ≤ last.stop.offset

/-- A report that points at a place which is at least `lo` bytes into the text. One that offers a
choice has two causes or more, which do not point in front of it, and any other one has none. -/
inductive Report.Points (tokens : List Token) : Int → Report → Prop where
  | simple {lo : Int} {p : Position} {fault : Fault} (hplace : IsPlace tokens p)
      (hlo : lo ≤ p.offset) (hcode : fault.code ≠ ("P001" : Text)) :
      Report.Points tokens lo (.located p fault [])
  | choice {lo : Int} {p : Position} {causes : List Report} (hplace : IsPlace tokens p)
      (hlo : lo ≤ p.offset) (htwo : 2 ≤ causes.length)
      (hcauses : ∀ cause ∈ causes, Report.Points tokens p.offset cause) :
      Report.Points tokens lo (.located p .noAlternative causes)

lemma Fault.code_ne {fault : Fault} (h : fault ≠ .noAlternative) : fault.code ≠ ("P001" : Text) := by
  cases fault with
  | noAlternative => exact absurd rfl h
  | _ => simp [Fault.code]

/-- The cursor stands in the tokens, with nothing in front of it that is not `lo` bytes into the
text. -/
structure Cursor.Within (tokens : List Token) (lo : Int) (c : Cursor) : Prop where
  ascending : Ascending tokens
  rest : c.rest <:+ tokens
  finish : ∃ t ∈ tokens.getLast?, t.stop = c.finish
  ahead : lo ≤ c.position.offset

variable {tokens : List Token} {lo : Int} {c d : Cursor}

lemma Cursor.peek?_settle : c.settle.peek? = c.peek? := by
  rw [Cursor.peek?, Cursor.settle_settle, ← Cursor.peek?]

lemma Cursor.isSpace_of_peek? {t : Token} (h : c.peek? = some t) : t.isSpace = false := by
  have hspace := List.head?_dropWhile_not Token.isSpace c.rest
  rw [← Cursor.settle_rest, ← Cursor.peek?, h] at hspace
  simpa using hspace

namespace Cursor.Within

lemma mem_of_peek? (h : c.Within tokens lo) {t : Token} (ht : c.peek? = some t) : t ∈ tokens :=
  h.rest.subset ((List.dropWhile_suffix _).subset (List.mem_of_mem_head? ht))

lemma isPlace (h : c.Within tokens lo) : IsPlace tokens c.position := by
  unfold Cursor.position
  cases ht : c.peek? with
  | none => exact .inr h.finish
  | some t => exact .inl ⟨t, h.mem_of_peek? ht, Cursor.isSpace_of_peek? ht, rfl⟩

lemma position_le_start (h : c.Within tokens lo) {t : Token} (ht : t ∈ c.rest)
    (hspace : t.isSpace = false) : c.position.offset ≤ t.start.offset := by
  have hmem : t ∈ c.rest.dropWhile Token.isSpace := by
    rw [← List.takeWhile_append_dropWhile (p := Token.isSpace) (l := c.rest), List.mem_append] at ht
    refine ht.resolve_left fun hfront => ?_
    rw [List.mem_takeWhile_imp hfront] at hspace
    cases hspace
  have hsuffix : c.rest.dropWhile Token.isSpace <:+ tokens := (List.dropWhile_suffix _).trans h.rest
  unfold Cursor.position Cursor.peek?
  rw [Cursor.settle_rest]
  cases hrest : c.rest.dropWhile Token.isSpace with
  | nil =>
    rw [hrest] at hmem
    cases hmem
  | cons u us =>
    rw [hrest] at hmem hsuffix
    rcases List.mem_cons.1 hmem with rfl | hmem
    · exact le_rfl
    · exact (List.pairwise_cons.1 (h.ascending.starts.sublist hsuffix.sublist)).1 t hmem

lemma position_le_finish (h : c.Within tokens lo) : c.position.offset ≤ c.finish.offset := by
  obtain ⟨last, hlast, hstop⟩ := h.finish
  unfold Cursor.position
  cases ht : c.peek? with
  | none => exact le_rfl
  | some t =>
    rw [← hstop]
    exact h.ascending.stop last hlast t (h.mem_of_peek? ht)

lemma of_suffix (h : c.Within tokens lo) (hrest : d.rest <:+ c.rest) (hfinish : d.finish = c.finish) :
    d.Within tokens lo := by
  refine ⟨h.ascending, hrest.trans h.rest, by rw [hfinish]; exact h.finish, h.ahead.trans ?_⟩
  rw [Cursor.position.eq_def d]
  cases ht : d.peek? with
  | none =>
    rw [Option.map_none, Option.getD_none, hfinish]
    exact h.position_le_finish
  | some t =>
    have hmem : t ∈ d.rest := (List.dropWhile_suffix _).subset (List.mem_of_mem_head? ht)
    exact h.position_le_start (hrest.subset hmem) (Cursor.isSpace_of_peek? ht)

lemma settle (h : c.Within tokens lo) : c.settle.Within tokens lo :=
  h.of_suffix (List.dropWhile_suffix _) rfl

lemma here (h : c.Within tokens lo) : c.Within tokens c.position.offset :=
  ⟨h.ascending, h.rest, h.finish, le_rfl⟩

lemma behind (h : c.Within tokens lo) {t : Token} {ts : List Token} (hr : c.settle.rest = t :: ts) :
    (c.settle.behind t ts).Within tokens lo := by
  refine h.settle.of_suffix ?_ rfl
  rw [Cursor.behind_rest, hr]
  exact (List.dropWhile_suffix _).trans (List.suffix_cons t ts)

end Cursor.Within

lemma ascending_of_places {p : Position}
    (h : ∀ before t others, tokens = before ++ t :: others → t.start = p.after (sourceOf before)) :
    Ascending tokens := by
  have hstart (q : Position) (ts : List Token)
      (hq : ∀ before t others, ts = before ++ t :: others → t.start = q.after (sourceOf before)) :
      ∀ t ∈ ts, q.offset ≤ t.start.offset := by
    intro t ht
    obtain ⟨before, others, hsplit⟩ := List.append_of_mem ht
    rw [hq before t others hsplit, offset_after]
    omega
  constructor
  · induction tokens generalizing p with
    | nil => exact .nil
    | cons t ts ih =>
      have hrest (before : List Token) (u : Token) (others : List Token)
          (hsplit : ts = before ++ u :: others) : u.start = (p.after t.text).after (sourceOf before) := by
        rw [h (t :: before) u others (by rw [hsplit]; rfl), ← after_append]
        rfl
      refine List.pairwise_cons.2 ⟨fun u hu => ?_, ih hrest⟩
      have hfirst : t.start = p := h [] t ts rfl
      have hle := hstart _ ts hrest u hu
      rw [offset_after] at hle
      rw [hfirst]
      omega
  · intro last hlast t ht
    obtain ⟨before, hsplit⟩ := List.getLast?_eq_some_iff.1 hlast
    have hstop : last.stop = p.after (sourceOf tokens) := by
      rw [Token.stop, h before last [] hsplit, ← after_append, hsplit]
      simp [sourceOf]
    obtain ⟨front, others, hsplit'⟩ := List.append_of_mem ht
    have hlength : (Text.encode (sourceOf front)).length ≤ (Text.encode (sourceOf tokens)).length := by
      rw [hsplit', sourceOf, sourceOf, List.flatMap_append, Text.encode, Text.encode, List.flatMap_append,
        List.length_append]
      omega
    rw [hstop, h front t others hsplit', offset_after, offset_after]
    omega

end Places

namespace Parser

variable {α β : Type} {tokens : List Token} {lo : Int}

/-- The outcome of a parser at a cursor that is `lo` bytes into the text: a report that does not point
in front of this, or a result for which `Q` holds, with a cursor that is not in front of it either. -/
inductive Verdict (tokens : List Token) (lo : Int) (Q : α → Prop) :
    Except Failure (α × Cursor) → Prop where
  | stalled : Verdict tokens lo Q (.error .stalled)
  | rejected {r : Report} (h : r.Points tokens lo) : Verdict tokens lo Q (.error (.rejected r))
  | done {a : α} {d : Cursor} (hd : d.Within tokens lo) (ha : Q a) : Verdict tokens lo Q (.ok (a, d))

/-- The reports of the parser point where they should, and `Q` holds of its results. -/
def BlamesWith (tokens : List Token) (lo : Int) (Q : α → Prop) (p : Parser α) : Prop :=
  ∀ ⦃c⦄, c.Within tokens lo → Verdict tokens lo Q (p c)

/-- The reports of the parser point where they should, wherever it starts. -/
def Blames (tokens : List Token) (p : Parser α) : Prop :=
  ∀ lo, BlamesWith tokens lo (fun _ => True) p

/-- A place at which a report may point. -/
def Target (tokens : List Token) (lo : Int) (p : Position) : Prop := IsPlace tokens p ∧ lo ≤ p.offset

section Combinators

variable {p : Parser α} {f : α → Parser β} {Q : α → Prop} {R : β → Prop} {kind : TokenKind}

lemma BlamesWith.bind (h : BlamesWith tokens lo Q p)
    (hf : ∀ a, Q a → BlamesWith tokens lo R (f a)) : BlamesWith tokens lo R (p >>= f) := by
  intro c hc
  have hp := h hc
  rw [bind_run]
  generalize p c = x at hp
  cases hp with
  | stalled => exact .stalled
  | rejected hr => exact .rejected hr
  | done hd ha => exact hf _ ha hd

lemma BlamesWith.weaken {S : α → Prop} (h : BlamesWith tokens lo Q p) (hQ : ∀ a, Q a → S a) :
    BlamesWith tokens lo S p := by
  intro c hc
  have hp := h hc
  generalize p c = x at hp
  cases hp with
  | stalled => exact .stalled
  | rejected hr => exact .rejected hr
  | done hd ha => exact .done hd (hQ _ ha)

lemma Blames.bind (h : Blames tokens p) (hf : ∀ a, Blames tokens (f a)) : Blames tokens (p >>= f) :=
  fun lo => (h lo).bind fun a _ => hf a lo

lemma blames_bind {Q : Int → α → Prop} (h : ∀ lo, BlamesWith tokens lo (Q lo) p)
    (hf : ∀ lo a, Q lo a → BlamesWith tokens lo (fun _ => True) (f a)) : Blames tokens (p >>= f) :=
  fun lo => (h lo).bind (hf lo)

lemma blamesWith_pure {a : α} (h : Q a) : BlamesWith tokens lo Q (pure a) := fun _ hc => .done hc h

lemma blames_pure (a : α) : Blames tokens (pure a) := fun _ => blamesWith_pure trivial

lemma blames_stall : Blames tokens (stall : Parser α) := fun _ _ _ => .stalled

lemma Target.points {i : Position} {fault : Fault} (hi : Target tokens lo i)
    (hfault : fault ≠ .noAlternative) : (Report.ofFault i fault).Points tokens lo :=
  .simple hi.1 hi.2 (Fault.code_ne hfault)

lemma blamesWith_reject {i : Position} {fault : Fault} (hi : Target tokens lo i)
    (hfault : fault ≠ .noAlternative) : BlamesWith tokens lo Q (reject i fault) :=
  fun _ _ => .rejected (hi.points hfault)

lemma blamesWith_rejectBind {i : Position} {fault : Fault} (hi : Target tokens lo i)
    (hfault : fault ≠ .noAlternative) : BlamesWith tokens lo R (reject i fault >>= f) :=
  fun _ _ => .rejected (hi.points hfault)

lemma blamesWith_here : BlamesWith tokens lo (Target tokens lo) here :=
  fun _ hc => .done hc.settle ⟨hc.isPlace, hc.ahead⟩

lemma blames_here : Blames tokens here := fun _ => blamesWith_here.weaken fun _ _ => trivial

lemma blames_lastStop : Blames tokens lastStop := fun _ _ hc => .done hc trivial

lemma blames_peekKind? : Blames tokens peekKind? := fun _ _ hc => .done hc.settle trivial

lemma blames_peek? : Blames tokens peek? := fun _ _ hc => .done hc.settle trivial

lemma skim_within (kind : TokenKind) {c : Cursor} (hc : c.Within tokens lo) :
    (∃ t d, c.skim kind = (some t, d) ∧ d.Within tokens lo ∧ Target tokens lo t.start) ∨
      c.skim kind = (none, c.settle) := by
  by_cases hk : c.peekKind? = some kind
  · obtain ⟨t, ts, hr, ht⟩ := rest_of_peekKind hk
    have hpeek : c.peek? = some t := by rw [Cursor.peek?, hr]; rfl
    have hposition : c.position = t.start := by rw [Cursor.position, hpeek]; rfl
    refine .inl ⟨t, _, Cursor.skim_of_kind hr ht, hc.behind hr, ?_⟩
    rw [← hposition]
    exact ⟨hc.isPlace, hc.ahead⟩
  · exact .inr (skim_of_peekKind hk)

lemma blamesWith_skim :
    BlamesWith tokens lo (fun o => ∀ t ∈ o, Target tokens lo t.start) (skim kind) := by
  intro c hc
  change Verdict _ _ _ (.ok (c.skim kind))
  obtain ⟨t, d, hskim, hd, ht⟩ | hskim := skim_within kind hc
  · rw [hskim]
    exact .done hd (by simpa using ht)
  · rw [hskim]
    exact .done hc.settle (by simp)

lemma blames_skim : Blames tokens (skim kind) := fun _ => blamesWith_skim.weaken fun _ _ => trivial

lemma blames_skip : Blames tokens (skip kind) := blames_skim.bind fun _ => blames_pure _

lemma blamesWith_take {message : Text} :
    BlamesWith tokens lo (fun t => Target tokens lo t.start) (take kind message) := by
  intro c hc
  rw [take_run]
  obtain ⟨t, d, hskim, hd, ht⟩ | hskim := skim_within kind hc
  · rw [hskim]
    exact .done hd ht
  · rw [hskim]
    have htarget : Target tokens lo c.settle.position := ⟨hc.settle.isPlace, hc.settle.ahead⟩
    exact .rejected (htarget.points (by simp))

lemma blames_take {message : Text} : Blames tokens (take kind message) :=
  fun _ => blamesWith_take.weaken fun _ _ => trivial

lemma blames_rejectHere {fault : Fault} (hfault : fault ≠ .noAlternative) :
    Blames tokens (here >>= fun i => (reject i fault : Parser α)) :=
  fun _ => blamesWith_here.bind fun _ hi => blamesWith_reject hi hfault

lemma blames_rejectHereBind {fault : Fault} (hfault : fault ≠ .noAlternative) :
    Blames tokens (here >>= fun i => (reject i fault : Parser α) >>= f) :=
  fun _ => blamesWith_here.bind fun _ hi => blamesWith_rejectBind hi hfault

/-- The alternatives fail one after the other, and if all do there are at least two reports. -/
lemma verdict_firstAfter {ps : List (Parser α)} {c : Cursor} (hc : c.Within tokens lo)
    (h : ps.Forall (Blames tokens)) {reports : List Report} (htwo : 2 ≤ reports.length + ps.length)
    (hreports : ∀ r ∈ reports, r.Points tokens c.position.offset) :
    Verdict tokens lo (fun _ => True) (firstAfter reports ps c) := by
  induction ps generalizing reports with
  | nil =>
    rw [List.length_nil, Nat.add_zero] at htwo
    have hchoice := Report.Points.choice hc.isPlace hc.ahead htwo hreports
    rcases reports with _ | ⟨r, _ | ⟨s, rest⟩⟩
    · cases htwo
    · simp at htwo
    · exact .rejected hchoice
  | cons p ps ih =>
    rw [List.forall_cons] at h
    -- the causes are measured from the cursor, the result from where the caller started
    have hcause := h.1 _ hc.here
    have hresult := h.1 _ hc
    rw [firstAfter_cons_run]
    generalize p c = x at hcause hresult
    cases hresult with
    | stalled => exact .stalled
    | done hd ha => exact .done hd ha
    | @rejected r _ =>
      cases hcause with
      | rejected hr =>
        refine ih h.2 (by simpa [Nat.add_assoc, Nat.add_comm 1] using htwo) fun s hs => ?_
        rcases List.mem_append.1 hs with hs | hs
        · exact hreports s hs
        · rwa [List.mem_singleton.1 hs]

lemma blames_firstOf {p q : Parser α} {ps : List (Parser α)} (h : (p :: q :: ps).Forall (Blames tokens)) :
    Blames tokens (firstOf (p :: q :: ps)) :=
  fun _ _ hc => verdict_firstAfter hc h (by simp) (by simp)

lemma blamesWith_bounded {p : Nat → Parser α} (h : ∀ n, BlamesWith tokens lo Q (p n)) :
    BlamesWith tokens lo Q (bounded p) := fun _ hc => h _ hc

lemma blames_bounded {p : Nat → Parser α} (h : ∀ n, Blames tokens (p n)) : Blames tokens (bounded p) :=
  fun lo => blamesWith_bounded fun n => h n lo

lemma blames_membersWithin {e : Parser Bool} {p : Parser (Option α)} (he : Blames tokens e)
    (h : Blames tokens p) (fuel : Nat) : Blames tokens (membersWithin e p fuel) := by
  induction fuel with
  | zero => exact blames_stall
  | succ fuel ih =>
    rw [membersWithin_run]
    refine he.bind fun ended => ?_
    cases ended with
    | true => exact blames_pure []
    | false => exact h.bind fun found => ih.bind fun others => blames_pure _

lemma blames_members {e : Parser Bool} {p q : Parser (Option α)} {ps : List (Parser (Option α))}
    (he : Blames tokens e) (h : (p :: q :: ps).Forall (Blames tokens)) :
    Blames tokens (members e (p :: q :: ps)) :=
  blames_bounded (blames_membersWithin he (blames_firstOf h))

lemma blames_membersUntil {closing : Symbol} {p q : Parser (Option α)} {ps : List (Parser (Option α))}
    (h : (p :: q :: ps).Forall (Blames tokens)) :
    Blames tokens (membersUntil closing (p :: q :: ps)) := blames_members blames_skip h

lemma blames_nakedMembers {p q : Parser (Option α)} {ps : List (Parser (Option α))}
    {stops : List TokenKind} (h : (p :: q :: ps).Forall (Blames tokens)) :
    Blames tokens (nakedMembers (p :: q :: ps) stops) :=
  blames_members (blames_peekKind?.bind fun _ => blames_pure _) h

lemma Blames.member (h : Blames tokens p) : Blames tokens (member p) := h.bind fun _ => blames_pure _

lemma blames_comma : Blames tokens (comma : Parser (Option α)) := blames_take.bind fun _ => blames_pure _

lemma blames_newline : Blames tokens (newline : Parser (Option α)) :=
  blames_take.bind fun _ => blames_pure _

lemma blames_semicolon : Blames tokens (semicolon : Parser (Option α)) :=
  blames_take.bind fun _ => blames_pure _

lemma blames_comment : Blames tokens comment := blames_take.bind fun _ => blames_pure _

lemma blames_unless {a : α} {ok : Option TokenKind → Bool} {fault : Fault}
    (hfault : fault ≠ .noAlternative) :
    Blames tokens (do
      if !ok (← peekKind?) then
        reject (← here) fault
      return a) := by
  refine blames_peekKind?.bind fun kind => ?_
  dsimp only
  split_ifs
  · exact blames_rejectHereBind hfault
  · exact blames_pure a

end Combinators

end Parser

end DpLang
