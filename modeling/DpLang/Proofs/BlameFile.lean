import DpLang.Proofs.BlameGrammar
import DpLang.Proofs.ExtensionFile

/-!
# Reports on files

A file that cannot be parsed is reported at the first token of the first of its members that cannot
be read, with one cause for each kind of member that was tried there.
-/

namespace DpLang

namespace Parser

variable {α : Type} {tokens : List Token} {lo : Int} {c d : Cursor}

section Parameters

lemma Blames.within {p : Parser α} (h : Blames tokens p) (hc : c.Within tokens lo) {a : α}
    (hp : p c = .ok (a, d)) : d.Within tokens lo := by
  have hverdict := h lo hc
  rw [hp] at hverdict
  cases hverdict with
  | done hd _ => exact hd

lemma blames_parameter : Blames tokens parameter := by
  refine blames_take.bind fun name => blames_skip.bind fun isOpen => ?_
  cases isOpen with
  | true => exact blames_lastStop.bind fun stop => blames_pure _
  | false =>
    refine blames_typeSpec.bind fun type => blames_skip.bind fun _ => ?_
    exact blames_lastStop.bind fun stop => blames_pure _

lemma last_of_skip {kind : TokenKind} (h : skip kind c = .ok (true, d)) (hpeek : d.peek? ≠ none) :
    d.last = d.position := by
  obtain ⟨t, ts, hr, ht⟩ := rest_of_peekKind (peekKind?_of_skip h)
  change Except.ok ((c.skim kind).1.isSome, (c.skim kind).2) = _ at h
  rw [Cursor.skim_of_kind hr ht] at h
  obtain ⟨-, rfl⟩ := Prod.mk.inj (Except.ok.inj h)
  rw [Cursor.peek?, Cursor.settle_rest, Cursor.behind_rest, List.dropWhile_idempotent] at hpeek
  rw [Cursor.behind_last, Cursor.position, Cursor.peek?, Cursor.settle_rest, Cursor.behind_rest,
    List.dropWhile_idempotent]
  cases hs : ts.dropWhile Token.isSpace with
  | nil => exact absurd (by rw [hs]; rfl) hpeek
  | cons u us => rfl

lemma stop_of_parameter {start stop : Position} {name : Text}
    (h : parameter c = .ok (.parameter start name none stop, d)) (hpeek : d.peek? ≠ none) :
    stop = d.position := by
  obtain ⟨t, c1, -, h⟩ := bind_ok_iff.1 h
  obtain ⟨isOpen, c2, hskip, h⟩ := bind_ok_iff.1 h
  cases isOpen with
  | true =>
    obtain ⟨hnode, rfl⟩ := lastStop_bind h
    rw [(Node.parameter.inj hnode).2.2.2, last_of_skip hskip hpeek]
  | false =>
    obtain ⟨type, c3, -, h⟩ := bind_ok_iff.1 h
    obtain ⟨_, c4, -, h⟩ := bind_ok_iff.1 h
    obtain ⟨hnode, -⟩ := lastStop_bind h
    cases (Node.parameter.inj hnode).2.2.1

def parameterMembers : List (Parser (Option Node)) := [comma, member comment, newline, member parameter]

lemma blames_parameterMember : Blames tokens (firstOf parameterMembers) :=
  blames_firstOf ⟨blames_comma, blames_comment.member, blames_newline, blames_parameter.member⟩

lemma parameter_of_member {start stop : Position} {name : Text} {type : Option TypeSpec}
    (h : firstOf parameterMembers c = .ok (some (.parameter start name type stop), d)) :
    parameter c = .ok (.parameter start name type stop, d) := by
  obtain ⟨p, hmem, h⟩ := firstOf_ok h
  simp only [parameterMembers, List.mem_cons, List.not_mem_nil, or_false] at hmem
  rcases hmem with rfl | rfl | rfl | rfl
  all_goals obtain ⟨x, e, hx, h⟩ := bind_ok_iff.1 h
  all_goals obtain ⟨hfound, rfl⟩ := pure_ok_iff.1 h
  · cases hfound
  · obtain ⟨t, e', -, hx⟩ := bind_ok_iff.1 hx
    obtain ⟨rfl, -⟩ := pure_ok_iff.1 hx
    cases Option.some.inj hfound
  · cases hfound
  · rw [Option.some.inj hfound]
    exact hx

/-- A list of parameters does not end with the tokens, as its closing parenthesis is missing there. -/
lemma peek?_of_parameters {fuel : Nat} {ns : List Node}
    (h : membersWithin (skip (.symbol .parenRight)) (firstOf parameterMembers) fuel c = .ok (ns, d)) :
    c.peek? ≠ none := by
  intro hnone
  have hnone' : c.settle.peek? = none := Cursor.peek?_settle.trans hnone
  have hkind : c.peekKind? ≠ some (.symbol .parenRight) := by simp [Cursor.peekKind?, hnone]
  cases fuel with
  | zero => cases h
  | succ fuel =>
    rw [membersWithin_run, bind_of_ok (skip_of_peekKind hkind)] at h
    obtain ⟨found, e, hfound, -⟩ := bind_ok_iff.1 h
    obtain ⟨report, hreject⟩ := rejects_firstOf fun p hp =>
      rejects_of_moves (isLoop_parameters.takes p hp c.settle) hnone'
    cases hfound.symm.trans hreject

lemma target_of_parameters {fuel : Nat} {ns : List Node} (hc : c.Within tokens lo)
    (h : membersWithin (skip (.symbol .parenRight)) (firstOf parameterMembers) fuel c = .ok (ns, d))
    {start stop : Position} {name : Text} (hmem : .parameter start name none stop ∈ ns) :
    Target tokens lo stop := by
  induction fuel generalizing c ns with
  | zero => cases h
  | succ fuel ih =>
    rw [membersWithin_run] at h
    obtain ⟨ended, c1, hskip, h⟩ := bind_ok_iff.1 h
    have hc1 := blames_skip.within hc hskip
    cases ended with
    | true =>
      obtain ⟨rfl, -⟩ := pure_ok_iff.1 h
      cases hmem
    | false =>
      obtain ⟨found, c2, hfound, h⟩ := bind_ok_iff.1 h
      obtain ⟨others, hothers, rfl⟩ := bind_pure_ok h
      have hc2 := blames_parameterMember.within hc1 hfound
      rcases List.mem_append.1 hmem with hmem | hmem
      · obtain rfl := Option.mem_toList.1 hmem
        have hstop := stop_of_parameter (parameter_of_member hfound) (peek?_of_parameters hothers)
        rw [hstop]
        exact ⟨hc2.isPlace, hc2.ahead⟩
      · exact ih hc2 hothers hmem

lemma blamesWith_parameters : BlamesWith tokens lo
    (fun ns => ∀ start name stop, .parameter start name none stop ∈ ns → Target tokens lo stop)
    parameters := by
  intro c hc
  have hparameters : Blames tokens parameters := blames_membersUntil
    ⟨blames_comma, blames_comment.member, blames_newline, blames_parameter.member⟩
  have hverdict := hparameters lo hc
  cases hrun : parameters c with
  | error failure =>
    rw [hrun] at hverdict
    cases hverdict with
    | stalled => exact .stalled
    | rejected hr => exact .rejected hr
  | ok result =>
    rw [hrun] at hverdict
    cases hverdict with
    | done hd _ => exact .done hd fun start name stop hmem => target_of_parameters hc hrun hmem

/-- A missing type is reported where one of the parameters without a type stops. -/
lemma fillTypes_error {ns : List Node} {report : Report} (h : fillTypes ns = .error report) :
    ∃ start name stop, .parameter start name none stop ∈ ns ∧
      report = .ofFault stop .missingParameterType := by
  obtain ⟨last, hlast, hnone, rfl⟩ := untyped_of_error (filledTypes_of_error h)
  have hmem := List.mem_reverse.1 (List.mem_of_find?_eq_some hlast)
  have htakes := List.find?_some hlast
  cases last with
  | parameter start name own stop =>
    obtain rfl : own = none := hnone
    exact ⟨start, name, stop, hmem, rfl⟩
  | _ => cases htakes

end Parameters

section Definitions

lemma blames_definedName {what : Text} : Blames tokens (definedName what) := by
  refine blames_take.bind fun token => ?_
  split_ifs
  · exact blames_take.bind fun name => blames_pure _
  · exact blames_pure _

lemma blames_constantDef : Blames tokens constantDef :=
  blames_definedName.bind fun (_, _, _) => blames_take.bind fun _ => blames_expression.bind fun _ =>
    blames_lastStop.bind fun _ => blames_pure _

lemma blames_resultType : Blames tokens (Node.typeSpec <$> typeSpec) := by
  rw [map_eq_pure_bind]
  exact blames_typeSpec.bind fun _ => blames_pure _

lemma blames_nakedResults : Blames tokens nakedResults :=
  blames_nakedMembers ⟨blames_comma, blames_resultType.member⟩

lemma blames_delimitedResults : Blames tokens delimitedResults :=
  blames_take.bind fun _ => blames_membersUntil
    ⟨blames_comma, blames_comment.member, blames_newline, blames_resultType.member⟩

lemma blames_publicKeyword : Blames tokens publicKeyword := by
  refine blames_peek?.bind fun token => ?_
  cases token with
  | none => exact blames_pure false
  | some token =>
    dsimp only
    split_ifs
    · exact blames_skip
    · exact blames_pure false

lemma blames_functionName : Blames tokens functionName := by
  refine blames_skip.bind fun hasReceiver => ?_
  cases hasReceiver with
  | true =>
    refine blames_take.bind fun receiver => blames_typeSpec.bind fun type => ?_
    exact blames_take.bind fun _ => blames_skim.bind fun name => blames_pure _
  | false => exact blames_take.bind fun name => blames_pure _

lemma blames_functionDef : Blames tokens functionDef := by
  refine blames_here.bind fun start => blames_publicKeyword.bind fun isPublic => ?_
  refine blames_functionName.bind fun (receiverName, receiverType, name) => blames_take.bind fun _ => ?_
  refine blames_bind (fun _ => blamesWith_parameters) fun lo params hparams => ?_
  refine (blames_lastStop lo).bind fun paramsStop _ => ?_
  cases hfill : fillTypes params with
  | error report =>
    obtain ⟨start, name, stop, hmem, rfl⟩ := fillTypes_error hfill
    exact fun _ _ => .rejected ((hparams start name stop hmem).points (by simp))
  | ok params =>
    have hresults : Blames tokens (firstOf [nakedResults, delimitedResults]) :=
      blames_firstOf ⟨blames_nakedResults, blames_delimitedResults⟩
    refine (hresults lo).bind fun results _ => (blames_take lo).bind fun opening _ => ?_
    refine (blames_statements lo).bind fun body _ => ?_
    exact (blames_lastStop lo).bind fun stop _ => blames_pure _ lo

lemma blames_fieldAccess : Blames tokens fieldAccess := by
  refine blames_bind (fun _ => blamesWith_skim) fun lo found hfound => ?_
  cases found with
  | none => exact blames_pure _ lo
  | some token =>
    dsimp only
    split
    · exact blames_pure _ lo
    · exact blamesWith_reject (hfound token rfl) (by simp)

lemma blames_field : Blames tokens field :=
  blames_take.bind fun _ => blames_typeSpec.bind fun _ => blames_fieldAccess.bind fun _ =>
    blames_lastStop.bind fun _ => blames_pure _

lemma blames_typeDef : Blames tokens typeDef := by
  have hfields : Blames tokens fields := blames_membersUntil ⟨blames_comma, blames_comment.member,
    blames_field.member, blames_importWithKeyword.member, blames_newline, blames_semicolon⟩
  refine blames_definedName.bind fun (token, isPublic, name) => blames_fieldAccess.bind fun access => ?_
  refine blames_take.bind fun _ => hfields.bind fun fields => ?_
  exact blames_lastStop.bind fun stop => blames_pure _

lemma blames_pathImport : Blames tokens pathImport := by
  refine blames_bind (fun _ => blamesWith_take) fun lo token htoken => ?_
  dsimp only
  split_ifs
  · exact blamesWith_rejectBind htoken (by simp)
  · exact (blames_lastStop lo).bind fun stop _ => blames_pure _ lo

lemma blames_importMembers : Blames tokens importMembers := by
  refine blames_peekKind?.bind fun kind => ?_
  split_ifs
  · exact blames_nakedMembers ⟨blames_comma, blames_pathImport.member⟩
  · refine blames_skip.bind fun parenthesized => ?_
    cases parenthesized with
    | true =>
      exact blames_membersUntil
        ⟨blames_comma, blames_comment.member, blames_pathImport.member, blames_newline⟩
    | false =>
      exact blames_take.bind fun _ => blames_membersUntil ⟨blames_comma, blames_comment.member,
        blames_importEntry.member, blames_newline, blames_semicolon⟩

lemma blames_importList : Blames tokens importList :=
  blames_take.bind fun _ => blames_importMembers.bind fun _ => blames_lastStop.bind fun _ =>
    blames_pure _

lemma blames_fileMembers : fileMembers.Forall (Blames tokens) :=
  ⟨blames_comment.member, blames_constantDef.member, blames_functionDef.member,
    blames_importList.member, blames_newline, blames_semicolon, blames_typeDef.member⟩

end Definitions

section Files

/-- The cursors in front of the members of a file, if those before them can be read. -/
inductive Reaches : Cursor → Cursor → Prop where
  | first (c : Cursor) : Reaches c c.settle
  | next {c d e : Cursor} {found : Option Node} (h : firstOf fileMembers c.settle = .ok (found, d))
      (rest : Reaches d e) : Reaches c e

lemma Reaches.within {e : Cursor} (h : Reaches c e) (hc : c.Within tokens lo) : e.Within tokens lo := by
  induction h with
  | first c => exact hc.settle
  | next h _ ih => exact ih ((blames_firstOf blames_fileMembers).within hc.settle h)

/-- A file is rejected at the first member that cannot be read. -/
lemma reaches_of_rejected {report : Report} (h : file c = .error (.rejected report)) :
    ∃ e t, Reaches c e ∧ e.peek? = some t ∧ firstOf fileMembers e = .error (.rejected report) := by
  induction hn : c.rest.length using Nat.strong_induction_on generalizing c with
  | _ n ih =>
    cases hpeek : c.peek? with
    | none =>
      rw [file_of_end hpeek] at h
      cases h
    | some t =>
      have hpeek' : c.settle.peek? = some t := Cursor.peek?_settle.trans hpeek
      have hend : atEnd c = .ok (false, c.settle) := by
        change Except.ok (c.peek?.isNone, c.settle) = _
        rw [hpeek]
        rfl
      rw [file_eq, membersStep, bind_of_ok hend, if_neg Bool.false_ne_true, bind_run] at h
      cases hmember : firstOf fileMembers c.settle with
      | error failure =>
        rw [hmember] at h
        obtain rfl := Except.error.inj h
        exact ⟨c.settle, t, .first c, hpeek', hmember⟩
      | ok result =>
        obtain ⟨found, d⟩ := result
        rw [hmember] at h
        have hlength := ((Cursor.Ahead.settle c).trans (ahead_of_member hmember)).length
        have hrest : file d = .error (.rejected report) := by
          cases hfile : file d with
          | ok others =>
            dsimp only at h
            rw [bind_run, hfile] at h
            cases h
          | error failure =>
            dsimp only at h
            rw [bind_run, hfile] at h
            exact h
        obtain ⟨e, u, hreaches, hu, hfirst⟩ := ih d.rest.length (by omega) hrest rfl
        exact ⟨e, u, .next hmember hreaches, hu, hfirst⟩

lemma firstAfter_rejected {ps : List (Parser α)} {reports : List Report} {report : Report}
    (htwo : 2 ≤ reports.length + ps.length) (h : firstAfter reports ps c = .error (.rejected report)) :
    ∃ causes, report = .located c.position .noAlternative (reports ++ causes) ∧
      List.Forall₂ (fun p cause => p c = .error (.rejected cause)) ps causes := by
  induction ps generalizing reports with
  | nil =>
    rcases reports with _ | ⟨r, _ | ⟨s, rest⟩⟩
    · cases htwo
    · simp at htwo
    · obtain rfl := Failure.rejected.inj (Except.error.inj h)
      exact ⟨[], by rw [List.append_nil], .nil⟩
  | cons p ps ih =>
    rw [firstAfter_cons_run] at h
    cases hp : p c with
    | ok result => rw [hp] at h; cases h
    | error failure =>
      cases failure with
      | stalled => rw [hp] at h; cases h
      | rejected cause =>
        rw [hp] at h
        obtain ⟨causes, rfl, hcauses⟩ :=
          ih (by simpa [Nat.add_assoc, Nat.add_comm 1] using htwo) h
        exact ⟨cause :: causes, by rw [List.append_assoc]; rfl, .cons hp hcauses⟩

end Files

end Parser

lemma rejected_of_parse {tokens : List Token} {failure : Failure} (h : parse tokens = .error failure) :
    ∃ report, failure = .rejected report ∧
      Parser.file (.ofTokens tokens) = .error (.rejected report) := by
  have hmoves := Parser.Agrees.moves (fun _ => Parser.agrees_file) (.ofTokens tokens)
  unfold parse at h
  change (Parser.file (.ofTokens tokens)).map Prod.fst = _ at h
  cases hfile : Parser.file (.ofTokens tokens) with
  | ok result => rw [hfile] at h; cases h
  | error inner =>
    rw [hfile] at h hmoves
    obtain rfl := Except.error.inj h
    cases inner with
    | rejected report => exact ⟨report, rfl, rfl⟩
    | stalled => exact absurd hmoves id

/-- A text that cannot be parsed is reported at the first token of the first member that cannot be
read, with what is wrong with each kind of member as the causes. All reports below are well formed and
point at tokens or at the end, and never in front of the report that they are causes of. -/
theorem parse_report_points {p : Position} {t : Text} {tokens : List Token} {failure : Failure}
    (ht : tokenize p t = .ok tokens) (h : parse tokens = .error failure) :
    ∃ c first causes, failure = .rejected (.located first.start .noAlternative causes) ∧
      (Report.located first.start .noAlternative causes).Points tokens first.start.offset ∧
      Parser.Reaches (.ofTokens tokens) c ∧ c.peek? = some first ∧
      List.Forall₂ (fun member cause => member c = .error (.rejected cause)) Parser.fileMembers causes := by
  obtain ⟨report, rfl, hfile⟩ := rejected_of_parse h
  obtain ⟨c, first, hreaches, hpeek, hmember⟩ := Parser.reaches_of_rejected hfile
  have hne : tokens ≠ [] := by
    rintro rfl
    cases hfile.symm.trans (Parser.file_of_end rfl)
  obtain ⟨-, -, hplaces⟩ := tokenizeWithin_covers ht
  have hlast := List.getLast?_eq_some_getLast hne
  have hstart : (Cursor.ofTokens tokens).Within tokens (Cursor.ofTokens tokens).position.offset := by
    refine ⟨ascending_of_places hplaces, List.suffix_rfl, ⟨_, hlast, ?_⟩, le_rfl⟩
    change _ = (tokens.getLast?.map Token.stop).getD .unknown
    rw [hlast]
    rfl
  have hposition : c.position = first.start := by rw [Cursor.position, hpeek]; rfl
  have hverdict := Parser.blames_firstOf Parser.blames_fileMembers _ (hreaches.within hstart).here
  obtain ⟨causes, rfl, hcauses⟩ := Parser.firstAfter_rejected (by decide) hmember
  rw [hposition] at hverdict ⊢
  refine ⟨c, first, causes, rfl, ?_, hreaches, hpeek, hcauses⟩
  change Parser.Verdict _ _ _ (Parser.firstOf Parser.fileMembers c) at hverdict
  rw [hmember, hposition] at hverdict
  cases hverdict with
  | rejected hpoints => exact hpoints

/-- Behind a constant, a function whose parameter has no type. The report on the function is one of the
causes, and it points at the closing parenthesis. -/
theorem parse_report_points_parameter :
    let source : Text := "x = 1\nf(a, ) \x7b\n\x7d\n"
    ∃ tokens failure, tokenize (.startOf "f") source = .ok tokens ∧ parse tokens = .error failure ∧
      ∃ c first causes, failure = .rejected (.located first.start .noAlternative causes) ∧
        (Report.located first.start .noAlternative causes).Points tokens first.start.offset ∧
        Parser.Reaches (.ofTokens tokens) c ∧ c.peek? = some first ∧
        List.Forall₂ (fun member cause => member c = .error (.rejected cause)) Parser.fileMembers
          causes := by
  intro source
  have hread : ((tokenize (.startOf "f") source).toOption.any fun tokens =>
      (parse tokens).toOption.isNone) = true := by decide +kernel
  cases ht : tokenize (.startOf "f") source with
  | error report => rw [ht] at hread; cases hread
  | ok tokens =>
    rw [ht] at hread
    cases hp : parse tokens with
    | ok nodes => simp [Except.toOption, hp] at hread
    | error failure => exact ⟨tokens, failure, rfl, hp, parse_report_points ht hp⟩

end DpLang
