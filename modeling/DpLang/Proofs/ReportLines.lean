import DpLang.Report
import DpLang.Proofs.StorePaths

/-!
# The lines of a report

A report is shown as one line for each error in it. An error is found by its address: the number of a
cause, that of a cause of this cause, and so on. The lines stand in the order of the addresses, which
puts an error before its causes, and a line is indented by twice the length of its address.
-/

namespace DpLang

section Texts

namespace Text

variable {mark : Char} {pieces : List Text}

/-- A number with zeros between its sign and its digits, as many as are missing to the width. -/
def zeroFilled (width : Nat) (n : Int) : Text :=
  (if n < 0 then ['-'] else []) ++ List.replicate (width - (ofInt n).length) '0' ++ ofNat n.natAbs

lemma zeroPadded_eq (width : Nat) (n : Int) : zeroPadded width n = zeroFilled width n := by
  unfold zeroPadded zeroFilled ofInt
  split
  · rw [List.leftpad, List.length_cons, Nat.sub_sub, Nat.add_comm 1]
    rfl
  · rfl

lemma newline_notMem_zeroFilled (width : Nat) (n : Int) : '\n' ∉ zeroFilled width n := by
  have hdigits : '\n' ∉ ofNat n.natAbs := fun hmem =>
    absurd (Nat.isDigit_of_mem_toDigits (by decide) (by decide) hmem) (by decide)
  rw [zeroFilled]
  split <;> simp [hdigits]

lemma join_cons (mark : Char) (t : Text) (h : pieces ≠ []) :
    join [mark] (t :: pieces) = t ++ mark :: join [mark] pieces := by
  obtain ⟨piece, more, rfl⟩ := List.exists_cons_of_ne_nil h
  simp [join, List.intercalate]

lemma splitOn_join (hne : pieces ≠ []) (h : ∀ t ∈ pieces, mark ∉ t) :
    splitOn mark (join [mark] pieces) = pieces := by
  induction pieces with
  | nil => exact absurd rfl hne
  | cons t pieces ih =>
    rw [List.forall_mem_cons] at h
    by_cases hmore : pieces = []
    · rw [hmore]
      simpa [join, List.intercalate] using splitOn_of_notMem h.1
    · rw [join_cons mark t hmore, splitOn_append, splitOn_of_notMem h.1, ih hmore h.2]
      rfl

lemma newlines_join {n : Nat} (hne : pieces ≠ []) (h : ∀ t ∈ pieces, newlines t = n) :
    newlines (join ['\n'] pieces) + 1 = pieces.length * (n + 1) := by
  induction pieces with
  | nil => exact absurd rfl hne
  | cons t pieces ih =>
    rw [List.forall_mem_cons] at h
    by_cases hmore : pieces = []
    · rw [hmore]
      simp [join, List.intercalate, h.1]
    · have hends : newlines (t ++ '\n' :: join ['\n'] pieces) =
          newlines t + (newlines (join ['\n'] pieces) + 1) := by
        rw [newlines, List.count_append, List.count_cons_self]
        rfl
      rw [join_cons '\n' t hmore, hends, ih hmore h.2, h.1, List.length_cons, Nat.succ_mul]
      omega

end Text

end Texts

namespace Report

section Trees

/-- The reports of the readings that were tried. -/
def causes : Report → List Report
  | .plain _ => []
  | .located _ _ causes => causes

def causeAt? : Report → List Nat → Option Report
  | report, [] => some report
  | report, i :: address => report.causes[i]?.bind fun cause => cause.causeAt? address

mutual
/-- The reports within a report with their addresses, each before its causes. -/
def preorder : Report → List (List Nat × Report)
  | .plain message => [([], .plain message)]
  | .located position fault causes => ([], .located position fault causes) :: causesPreorder 0 causes

/-- The reports within causes that are numbered from `i` on. -/
def causesPreorder (i : Nat) : List Report → List (List Nat × Report)
  | [] => []
  | cause :: causes =>
    cause.preorder.map (fun entry => (i :: entry.1, entry.2)) ++ causesPreorder (i + 1) causes
end

lemma preorder_eq (report : Report) : report.preorder = ([], report) :: causesPreorder 0 report.causes := by
  cases report with
  | plain message => rw [preorder, Report.causes, causesPreorder]
  | located position fault causes => rw [preorder, Report.causes]

variable {report e : Report} {causes : List Report} {address : List Nat} {i : Nat}

lemma mem_causesPreorder :
    (address, e) ∈ causesPreorder i causes ↔
      ∃ j cause rest, causes[j]? = some cause ∧ address = (i + j) :: rest ∧ (rest, e) ∈ cause.preorder := by
  induction causes generalizing i with
  | nil => simp [causesPreorder]
  | cons first causes ih =>
    rw [causesPreorder, List.mem_append, ih]
    constructor
    · rintro (hfirst | ⟨j, cause, rest, hj, rfl, hmem⟩)
      · obtain ⟨⟨rest, e⟩, hmem, heq⟩ := List.mem_map.1 hfirst
        obtain ⟨rfl, rfl⟩ := Prod.mk.inj heq
        exact ⟨0, first, rest, rfl, rfl, hmem⟩
      · exact ⟨j + 1, cause, rest, hj, by rw [Nat.add_right_comm, Nat.add_assoc], hmem⟩
    · rintro ⟨j, cause, rest, hj, rfl, hmem⟩
      cases j with
      | zero =>
        obtain rfl := Option.some.inj hj
        exact .inl (List.mem_map.2 ⟨(rest, e), hmem, rfl⟩)
      | succ j => exact .inr ⟨j, cause, rest, hj, by rw [Nat.add_right_comm, Nat.add_assoc], hmem⟩

lemma mem_preorder_iff : (address, e) ∈ report.preorder ↔ report.causeAt? address = some e := by
  induction address generalizing report with
  | nil =>
    rw [preorder_eq, List.mem_cons, mem_causesPreorder, causeAt?]
    simp [eq_comm]
  | cons k address ih =>
    rw [preorder_eq, List.mem_cons, mem_causesPreorder, causeAt?, Option.bind_eq_some_iff]
    simp only [← ih]
    constructor
    · rintro (hroot | ⟨j, cause, rest, hj, heq, hmem⟩)
      · cases hroot
      · obtain ⟨rfl, rfl⟩ := List.cons.inj heq
        exact ⟨cause, by rwa [Nat.zero_add], hmem⟩
    · rintro ⟨cause, hk, hmem⟩
      exact .inr ⟨k, cause, address, hk, by rw [Nat.zero_add], hmem⟩

mutual
/-- The addresses ascend, and none of them comes twice. -/
theorem preorder_ascending : ∀ report : Report, (report.preorder.map Prod.fst).Pairwise (· < ·)
  | .plain message => by
    rw [preorder]
    exact List.pairwise_singleton _ _
  | .located position fault causes => by
    rw [preorder, List.map_cons, List.pairwise_cons]
    refine ⟨fun address hmem => ?_, causesPreorder_ascending 0 causes⟩
    obtain ⟨⟨_, e⟩, hentry, rfl⟩ := List.mem_map.1 hmem
    obtain ⟨j, cause, rest, -, rfl, -⟩ := mem_causesPreorder.1 hentry
    exact List.nil_lt_cons _ _

theorem causesPreorder_ascending (i : Nat) :
    ∀ causes : List Report, ((causesPreorder i causes).map Prod.fst).Pairwise (· < ·)
  | [] => by
    rw [causesPreorder]
    exact .nil
  | cause :: causes => by
    rw [causesPreorder, List.map_append, List.pairwise_append]
    refine ⟨?_, causesPreorder_ascending (i + 1) causes, ?_⟩
    · rw [List.map_map, List.pairwise_map]
      have hcause := List.pairwise_map.1 (preorder_ascending cause)
      exact hcause.imp fun h => List.cons_lt_cons_iff.2 (.inr ⟨rfl, h⟩)
    · intro a ha b hb
      obtain ⟨⟨_, e⟩, hentry, rfl⟩ := List.mem_map.1 hb
      obtain ⟨j, _, rest, -, rfl, -⟩ := mem_causesPreorder.1 hentry
      rw [List.map_map, List.mem_map] at ha
      obtain ⟨⟨_, _⟩, -, rfl⟩ := ha
      exact List.cons_lt_cons_iff.2 (.inl (by omega))
end

end Trees

section Lines

def message : Report → Text
  | .plain message => message
  | .located _ fault _ => fault.message

/-- The file that a report is about, empty if there is none. -/
def path : Report → Text
  | .plain _ => []
  | .located position _ _ => position.path

/-- What stands in front of the blanks on the line of a report. -/
def front : Report → Text
  | .plain _ => []
  | .located p _ _ =>
    (if p.path ≠ [] then p.path ++ [':'] else []) ++
      if 0 < p.line then Text.zeroFilled 4 p.line ++ [':'] ++ Text.zeroFilled 3 p.column ++ [':', ' '] else []

/-- The line of a report that is so many levels below the one that is shown. -/
def headline (indent : Text) (depth : Nat) (report : Report) : Text :=
  report.front ++ List.replicate (2 * depth) ' ' ++ indent ++ report.message ++
    if report.causes ≠ [] then [':'] else []

lemma place_eq (position : Position) (fault : Fault) (causes : List Report) :
    place position = (located position fault causes).front := by
  rw [place, front, Text.zeroPadded_eq, Text.zeroPadded_eq]
  cases position.path with
  | nil => rfl
  | cons c path => rfl

mutual
/-- The lines of a report are those of the reports within it. -/
theorem lines_eq (indent : Text) (depth : Nat) : ∀ report : Report,
    lines (List.replicate (2 * depth) ' ' ++ indent) report =
      report.preorder.map fun entry => entry.2.headline indent (depth + entry.1.length)
  | .plain message => by
    rw [preorder, lines]
    simp [headline, front, Report.message, Report.causes]
  | .located position fault causes => by
    have hmark : (if causes.isEmpty then [] else [':']) = if causes ≠ [] then [':'] else [] := by
      cases causes with
      | nil => rfl
      | cons cause causes => rfl
    have hcauses : causeLines (' ' :: ' ' :: (List.replicate (2 * depth) ' ' ++ indent)) causes = _ :=
      causeLines_eq indent depth 0 causes
    rw [preorder, lines, List.map_cons, hcauses, hmark, place_eq position fault causes, ← List.append_assoc]
    rfl

theorem causeLines_eq (indent : Text) (depth : Nat) (i : Nat) : ∀ causes : List Report,
    causeLines (List.replicate (2 * (depth + 1)) ' ' ++ indent) causes =
      (causesPreorder i causes).map fun entry => entry.2.headline indent (depth + entry.1.length)
  | [] => by
    rw [causesPreorder, causeLines]
    rfl
  | cause :: causes => by
    rw [causesPreorder, causeLines, lines_eq indent (depth + 1) cause, causeLines_eq indent depth (i + 1) causes,
      List.map_append, List.map_map]
    simp [Function.comp_def, Nat.add_assoc, Nat.add_comm 1]
end

lemma newline_notMem_front {e : Report} (h : '\n' ∉ e.path) : '\n' ∉ e.front := by
  cases e with
  | plain message => exact List.not_mem_nil
  | located p fault causes =>
    have hpath : '\n' ∉ p.path := h
    have hline := Text.newline_notMem_zeroFilled 4 p.line
    have hcolumn := Text.newline_notMem_zeroFilled 3 p.column
    rw [front, List.mem_append, not_or]
    constructor
    · split <;> simp [hpath]
    · split <;> simp [hline, hcolumn]

lemma newlines_headline {e : Report} (hmessage : '\n' ∉ e.message) (hpath : '\n' ∉ e.path) (indent : Text)
    (depth : Nat) : (e.headline indent depth).newlines = indent.newlines := by
  have hblanks : '\n' ∉ List.replicate (2 * depth) ' ' := by simp
  have hmark : '\n' ∉ (if e.causes ≠ [] then [':'] else [] : Text) := by split <;> decide
  simp only [headline, Text.newlines, List.count_append, List.count_eq_zero.2 (newline_notMem_front hpath),
    List.count_eq_zero.2 hblanks, List.count_eq_zero.2 hmessage, List.count_eq_zero.2 hmark, Nat.zero_add,
    Nat.add_zero]

/-- A report is shown as the lines of all reports within it, in the order of their addresses. These are
its lines, as many as there are reports, and where the indent has line ends in it, so has each of them. -/
theorem render_lists_tree (indent : Text) (report : Report)
    (h : ∀ address e, report.causeAt? address = some e → '\n' ∉ e.message ∧ '\n' ∉ e.path) :
    let listed := report.preorder.map fun entry => entry.2.headline indent entry.1.length
    report.render indent = Text.join ['\n'] listed ∧
    (report.preorder.map Prod.fst).Pairwise (· < ·) ∧
    (∀ address e, (address, e) ∈ report.preorder ↔ report.causeAt? address = some e) ∧
    ('\n' ∉ indent → Text.splitOn '\n' (report.render indent) = listed) ∧
    (report.render indent).newlines + 1 = report.preorder.length * (indent.newlines + 1) := by
  intro listed
  have hrender : report.render indent = Text.join ['\n'] listed := by
    have hlines := lines_eq indent 0 report
    simp only [Nat.zero_add] at hlines
    exact congrArg (Text.join ['\n']) hlines
  have hne : listed ≠ [] := by simp [listed, preorder_eq]
  have hends : ∀ line ∈ listed, line.newlines = indent.newlines := by
    intro line hline
    obtain ⟨⟨address, e⟩, hentry, rfl⟩ := List.mem_map.1 hline
    obtain ⟨hmessage, hpath⟩ := h address e (mem_preorder_iff.1 hentry)
    exact newlines_headline hmessage hpath indent address.length
  refine ⟨hrender, preorder_ascending report, fun address e => mem_preorder_iff, fun hindent => ?_, ?_⟩
  · rw [hrender]
    apply Text.splitOn_join hne
    intro line hline
    rw [← List.count_eq_zero]
    exact (hends line hline).trans (List.count_eq_zero.2 hindent)
  · rw [hrender, Text.newlines_join hne hends, List.length_map]

/-- A report three levels deep, without and with a path, a place and causes, behind an indent of its own. -/
theorem render_lists_tree_nested :
    let leaf : Report := .located ⟨['f'], 12345, -7, 0⟩ .illegalToken []
    let branch : Report := .located ⟨[], 2, 5, 0⟩ .noAlternative [leaf, .plain ['s']]
    let report : Report := .located ⟨['f'], 0, 0, 0⟩ (.unexpectedToken ['x']) [.plain ['p'], branch]
    let indent : Text := ['>']
    (∀ address e, report.causeAt? address = some e → '\n' ∉ e.message ∧ '\n' ∉ e.path) ∧
    report.preorder = [([], report), ([0], .plain ['p']), ([1], branch), ([1, 0], leaf), ([1, 1], .plain ['s'])] ∧
    '\n' ∉ indent ∧
    Text.splitOn '\n' (report.render indent) =
      ["f:>x:", "  >p", "0002:005:   >syntax error:", "f:12345:-07:     >illegal token",
        "    >s"].map String.toList := by
  intro leaf branch report indent
  have hlisted : report.preorder =
      [([], report), ([0], .plain ['p']), ([1], branch), ([1, 0], leaf), ([1, 1], .plain ['s'])] := rfl
  have hflat : ∀ address e, report.causeAt? address = some e → '\n' ∉ e.message ∧ '\n' ∉ e.path := by
    intro address e h
    have hmem := mem_preorder_iff.2 h
    simp only [hlisted, List.mem_cons, Prod.mk.injEq, List.not_mem_nil, or_false] at hmem
    rcases hmem with ⟨-, rfl⟩ | ⟨-, rfl⟩ | ⟨-, rfl⟩ | ⟨-, rfl⟩ | ⟨-, rfl⟩ <;> decide
  refine ⟨hflat, hlisted, by decide, ?_⟩
  rw [(render_lists_tree indent report hflat).2.2.2.1 (by decide)]
  rfl

end Lines

end Report

end DpLang
