import DpLang.Proofs.LocalLayout
import Mathlib.Data.List.DropRight

/-!
# Pages and their forks

A page is written to, forked, and its forks are written to and forked in their turn. What each of these
pages shows follows from the line that it was started on and from the texts that were written to it, in
whatever parts: its text is the parts put together, its current line is what stands behind the last line
end. No page changes but by what is written to it, and a page and its fork stay on the same line as long
as they get the same text.
-/

namespace DpLang

section Lines

namespace Text

variable {a b lead : Text}

def lastLine (t : Text) : Text := t.rtakeWhile (· != '\n')

lemma notMem_lastLine (t : Text) : '\n' ∉ lastLine t :=
  fun hmem => absurd (List.mem_rtakeWhile_imp hmem) (by decide)

lemma lastLine_of_notMem (h : '\n' ∉ a) : lastLine a = a := by
  rw [lastLine, List.rtakeWhile_eq_self_iff]
  intro c hc
  rw [bne_iff_ne]
  rintro rfl
  exact h hc

lemma lastLine_append (a b : Text) :
    lastLine (a ++ b) = if '\n' ∈ b then lastLine b else lastLine a ++ b := by
  induction b using List.reverseRecOn with
  | nil => simp
  | append_singleton b c ih =>
    rw [← List.append_assoc, lastLine, List.rtakeWhile_concat, lastLine, List.rtakeWhile_concat]
    by_cases hc : c = '\n'
    · simp [hc]
    · have hmem : '\n' ∈ b ++ [c] ↔ '\n' ∈ b := by simp [Ne.symm hc]
      have hstays : (c != '\n') = true := bne_iff_ne.2 hc
      rw [if_pos hstays, if_pos hstays]
      change lastLine (a ++ b) ++ [c] = _
      rw [ih]
      simp only [hmem]
      split
      · rfl
      · rw [List.append_assoc]

/-- The current line, looked for in the parts of a text from the last one back: up to the first that
holds a line end, or up to `lead`. -/
def lineBehind (lead : Text) : List Text → Text
  | [] => lead
  | part :: earlier => if '\n' ∈ part then lastLine part else lineBehind lead earlier ++ part

/-- The last character, looked for in the parts of a text from the last one back. -/
def charBehind (lead : Text) : List Text → Option Char
  | [] => lead.getLast?
  | part :: earlier => part.getLast?.or (charBehind lead earlier)

lemma lineBehind_reverse (h : '\n' ∉ lead) (parts : List Text) :
    lineBehind lead parts.reverse = lastLine (lead ++ parts.flatten) := by
  induction parts using List.reverseRecOn with
  | nil => simp [lineBehind, lastLine_of_notMem h]
  | append_singleton parts part ih =>
    rw [List.reverse_append, List.reverse_singleton, List.singleton_append, lineBehind, ih,
      List.flatten_append, List.flatten_singleton, ← List.append_assoc, lastLine_append _ part]

lemma charBehind_reverse (lead : Text) (parts : List Text) :
    charBehind lead parts.reverse = (lead ++ parts.flatten).getLast? := by
  induction parts using List.reverseRecOn with
  | nil => simp [charBehind]
  | append_singleton parts part ih =>
    rw [List.reverse_append, List.reverse_singleton, List.singleton_append, charBehind, ih,
      List.flatten_append, List.flatten_singleton, ← List.append_assoc]
    exact List.getLast?_append.symm

end Text

namespace Page

variable {lead : Text}

lemma currentLine_flat (h : '\n' ∉ lead) (line : Int) (t : Text) :
    ((behind lead line).write t).currentLine = (lead ++ t).lastLine := by
  rw [Text.lastLine_append, Text.lastLine_of_notMem h]
  split
  · next hmem => simp [behind, write, currentLine, Text.lastLine, List.rtakeWhile, hmem]
  · next hnot => rw [currentLine_write_of_notMem _ hnot, currentLine_behind]

lemma lastChar?_flat (lead : Text) (line : Int) (t : Text) :
    ((behind lead line).write t).lastChar? = (lead ++ t).getLast? := by
  cases t using List.reverseRecOn with
  | nil => simp [behind, write, lastChar?]
  | append_singleton t c => simp [write, lastChar?]

end Page

end Lines

section Runs

inductive PageStep where
  | write (t : Text)
  | pad (amount : Int)
  | indent (level : Int)
  | fork
  deriving DecidableEq, Repr

def PageStep.text : PageStep → Text
  | .write t => t
  | .pad amount => List.replicate amount.toNat ' '
  | .indent level => List.replicate level.toNat '\t'
  | .fork => []

/-- The pages after a step on the one with number `i`. A fork comes behind all other pages. -/
def PageStep.pages (i : Nat) (pages : List Page) : PageStep → List Page
  | .write t => pages.modify i (·.write t)
  | .pad amount => pages.modify i (·.pad amount)
  | .indent level => pages.modify i (·.indent level)
  | .fork => pages ++ (pages[i]?.map Page.fork).toList

/-- The pages after steps that are taken one after the other, each on the page with its number. -/
def runPages (pages : List Page) (steps : List (Nat × PageStep)) : List Page :=
  steps.foldl (fun pages step => step.2.pages step.1 pages) pages

/-- What has been done to a page: what stood on its line when it was started, the number of that line, and
the texts that were written to the page since, in their order. -/
structure PageRecord where
  lead : Text
  start : Int
  parts : List Text
  oneLine : '\n' ∉ lead

namespace PageRecord

def text (record : PageRecord) : Text := record.parts.flatten

/-- The record with one more text. -/
def add (record : PageRecord) (t : Text) : PageRecord := { record with parts := record.parts ++ [t] }

def forked (record : PageRecord) : PageRecord where
  lead := (record.lead ++ record.text).lastLine
  start := record.start + record.text.newlines
  parts := []
  oneLine := Text.notMem_lastLine _

def page (record : PageRecord) : Page := (Page.behind record.lead record.start).write record.text

end PageRecord

def PageStep.records (i : Nat) (records : List PageRecord) : PageStep → List PageRecord
  | .fork => records ++ (records[i]?.map PageRecord.forked).toList
  | step => records.modify i (·.add step.text)

/-- The records after steps that are taken one after the other. -/
def runRecords (records : List PageRecord) (steps : List (Nat × PageStep)) : List PageRecord :=
  steps.foldl (fun records step => step.2.records step.1 records) records

/-- What is written to the page with number `i`. -/
def textOn (i : Nat) (steps : List (Nat × PageStep)) : Text :=
  steps.flatMap fun step => if step.1 = i then step.2.text else []

section Records

lemma PageRecord.page_add (record : PageRecord) (t : Text) : (record.add t).page = record.page.write t := by
  simp [page, add, text, Page.write_append]

lemma PageRecord.page_forked (record : PageRecord) : record.forked.page = record.page.fork := by
  have hnothing : record.forked.page = Page.behind record.forked.lead record.forked.start := Page.write_nil _
  rw [hnothing, Page.fork, page, Page.currentLine_flat record.oneLine]
  rfl

lemma PageStep.pages_of_ne_fork {step : PageStep} (h : step ≠ .fork) (i : Nat) (pages : List Page) :
    step.pages i pages = pages.modify i (·.write step.text) := by
  cases step with
  | fork => exact absurd rfl h
  | _ => rfl

lemma PageStep.records_of_ne_fork {step : PageStep} (h : step ≠ .fork) (i : Nat) (records : List PageRecord) :
    step.records i records = records.modify i (·.add step.text) := by
  cases step with
  | fork => exact absurd rfl h
  | _ => rfl

lemma PageStep.pages_map (i : Nat) (records : List PageRecord) (step : PageStep) :
    step.pages i (records.map PageRecord.page) = (step.records i records).map PageRecord.page := by
  by_cases h : step = .fork
  · rw [h, pages, PageStep.records, List.map_append, List.getElem?_map, ← Option.toList_map, Option.map_map,
      Option.map_map]
    simp only [Function.comp_def, PageRecord.page_forked]
  · rw [pages_of_ne_fork h, records_of_ne_fork h]
    apply List.ext_getElem?
    intro j
    rw [List.getElem?_modify, List.getElem?_map, List.getElem?_map, List.getElem?_modify]
    cases records[j]? with
    | none => rfl
    | some record =>
      dsimp
      split
      · rw [PageRecord.page_add]
      · rfl

lemma runPages_map (records : List PageRecord) (steps : List (Nat × PageStep)) :
    runPages (records.map PageRecord.page) steps = (runRecords records steps).map PageRecord.page := by
  induction steps generalizing records with
  | nil => rfl
  | cons step steps ih =>
    change runPages (step.2.pages step.1 _) steps = _
    rw [PageStep.pages_map, ih]
    rfl

end Records

section Frames

variable {pages : List Page} {i j : Nat}

lemma PageStep.length_le (i : Nat) (pages : List Page) (step : PageStep) :
    pages.length ≤ (step.pages i pages).length := by
  by_cases h : step = .fork
  · rw [h, PageStep.pages, List.length_append]
    exact Nat.le_add_right _ _
  · rw [pages_of_ne_fork h, List.length_modify]

lemma PageStep.getElem?_pages (h : j < pages.length) (i : Nat) (step : PageStep) :
    (step.pages i pages)[j]? = pages[j]?.map (·.write (if i = j then step.text else [])) := by
  by_cases hfork : step = .fork
  · rw [hfork, PageStep.pages, List.getElem?_append_left h]
    simp [PageStep.text, Page.write_nil]
  · rw [pages_of_ne_fork hfork, List.getElem?_modify]
    split <;> simp [Page.write_nil]

lemma getElem?_runPages (h : j < pages.length) (steps : List (Nat × PageStep)) :
    (runPages pages steps)[j]? = pages[j]?.map (·.write (textOn j steps)) := by
  induction steps generalizing pages with
  | nil => simp [runPages, textOn, Page.write_nil]
  | cons step steps ih =>
    change (runPages (step.2.pages step.1 pages) steps)[j]? = _
    rw [ih (h.trans_le (step.2.length_le step.1 pages)), PageStep.getElem?_pages h, Option.map_map]
    simp only [Function.comp_def, Page.write_append]
    rfl

/-- A page and its fork have from then on what is written to the one and to the other. -/
lemma runPages_fork {origin : Page} (h : pages[i]? = some origin) (later : List (Nat × PageStep)) :
    (runPages pages ((i, .fork) :: later))[i]? = some (origin.write (textOn i later)) ∧
    (runPages pages ((i, .fork) :: later))[pages.length]? =
      some (origin.fork.write (textOn pages.length later)) := by
  have hforked : runPages pages ((i, .fork) :: later) = runPages (pages ++ [origin.fork]) later := by
    simp [runPages, PageStep.pages, h]
  have hi : i < pages.length := (List.getElem?_eq_some_iff.1 h).1
  have hlength : (pages ++ [origin.fork]).length = pages.length + 1 := by simp
  rw [hforked, getElem?_runPages (by omega), getElem?_runPages (by omega), List.getElem?_append_left hi, h,
    List.getElem?_concat_length]
  exact ⟨rfl, rfl⟩

end Frames

/-- What a page shows is what its record says. -/
structure Page.Shows (page : Page) (record : PageRecord) : Prop where
  value : page.value = record.text
  line : page.line = record.start + record.text.newlines
  currentLine : page.currentLine = (record.lead ++ record.text).lastLine
  lastChar? : page.lastChar? = (record.lead ++ record.text).getLast?
  -- the same, looked for in the parts of the text
  lineBehind : page.currentLine = Text.lineBehind record.lead record.parts.reverse
  charBehind : page.lastChar? = Text.charBehind record.lead record.parts.reverse

lemma PageRecord.shows (record : PageRecord) : record.page.Shows record where
  value := Page.value_behind _ _ _
  line := rfl
  currentLine := Page.currentLine_flat record.oneLine _ _
  lastChar? := Page.lastChar?_flat _ _ _
  lineBehind := by
    rw [Text.lineBehind_reverse record.oneLine]
    exact Page.currentLine_flat record.oneLine _ _
  charBehind := by
    rw [Text.charBehind_reverse]
    exact Page.lastChar?_flat _ _ _

/-- Every page of a run shows what its record says, whichever steps are taken on it, on its forks and on
their forks. A fork does not change its origin, and neither does what is written to other pages later. Where
the origin and the fork get the same text, they are on the same line. -/
theorem pages_show_records {lead : Text} (hlead : '\n' ∉ lead) (line : Int) (steps : List (Nat × PageStep)) :
    let pages := runPages [.behind lead line] steps
    List.Forall₂ Page.Shows pages (runRecords [⟨lead, line, [], hlead⟩] steps) ∧
    ∀ i origin, pages[i]? = some origin → ∀ later,
      let after := runPages pages ((i, .fork) :: later)
      (textOn i later = [] → after[i]? = some origin) ∧
      (textOn i later = textOn pages.length later → ∃ page fork, after[i]? = some page ∧
        after[pages.length]? = some fork ∧ page.currentLine = fork.currentLine ∧ page.line = fork.line) := by
  intro pages
  refine ⟨?_, fun i origin horigin later => ?_⟩
  · have hstart : [Page.behind lead line] = [⟨lead, line, [], hlead⟩].map PageRecord.page :=
      congrArg (fun page => [page]) (Page.write_nil _).symm
    have hpages : pages = (runRecords [⟨lead, line, [], hlead⟩] steps).map PageRecord.page := by
      rw [← runPages_map, ← hstart]
    rw [hpages, List.forall₂_map_left_iff, List.forall₂_same]
    exact fun record _ => record.shows
  · obtain ⟨hpage, hfork⟩ := runPages_fork horigin later
    refine ⟨fun hnothing => ?_, fun hsame => ⟨_, _, hpage, hfork, ?_, ?_⟩⟩
    · rw [hpage, hnothing, Page.write_nil]
    · rw [← hsame]
      exact Page.currentLine_write_congr origin.currentLine_fork.symm _
    · rw [← hsame]
      rfl

/-- A fork of a fork, behind a text with a line end. -/
theorem pages_show_records_nested :
    let lead : Text := ['a', 'b']
    let steps : List (Nat × PageStep) :=
      [(0, .write ['x', '\n', '\t', 'y']), (0, .fork), (1, .pad 2), (1, .fork), (2, .indent (-1))]
    let pages := runPages [.behind lead 3] steps
    let elsewhere : List (Nat × PageStep) := [(3, .write ['k', '\n']), (3, .fork), (4, .pad 1), (1, .write [])]
    let alike : List (Nat × PageStep) := [(1, .write ['\n', ' ']), (3, .write ['\n']), (2, .fork), (3, .pad 1)]
    let origin : Page := ⟨['\t', 'y'], 4, [' ', ' ']⟩
    ∃ hlead : '\n' ∉ lead, List.Forall₂ Page.Shows pages (runRecords [⟨lead, 3, [], hlead⟩] steps) ∧
      pages[1]? = some origin ∧
      textOn 1 elsewhere = [] ∧ (runPages pages ((1, .fork) :: elsewhere))[1]? = some origin ∧
      textOn 1 alike = textOn pages.length alike ∧
      ∃ page fork, (runPages pages ((1, .fork) :: alike))[1]? = some page ∧
        (runPages pages ((1, .fork) :: alike))[pages.length]? = some fork ∧
        page.currentLine = fork.currentLine ∧ page.line = fork.line := by
  intro lead steps pages elsewhere alike origin
  have hlead : '\n' ∉ lead := by decide
  have horigin : pages[1]? = some origin := by decide
  obtain ⟨hshows, hforks⟩ := pages_show_records hlead 3 steps
  exact ⟨hlead, hshows, horigin, by decide, (hforks 1 origin horigin elsewhere).1 (by decide), by decide,
    (hforks 1 origin horigin alike).2 (by decide)⟩

end Runs

end DpLang
