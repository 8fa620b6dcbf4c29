import DpLang.Proofs.Shift
import Mathlib.Data.List.DropRight

/-!
# Images of cursors

A cursor is the image of another one if its significant tokens are the tokens of the other one,
moved by a shift. What the next token is, and what is left behind it, agree on both sides. Where the
one side has a line end, the image may have several: the image of the cursor behind the line end is
the cursor behind all of them.
-/

namespace DpLang

/-- The position behind the last token that is not blank. -/
def lastStop? (ts : List Token) : Option Position :=
  (ts.filter (!·.isSpace)).getLast?.map Token.stop

/-- The significant tokens of `d` are those of `c`, moved by `s`. -/
structure Cursor.Image (s : Shift) (c d : Cursor) : Prop where
  rest : significant false d.rest = move s c.rest
  last : d.last = s.place c.last
  finish : d.finish = s.place c.finish
  ends : ∀ t, c.rest.getLast? = some t → lastStop? d.rest = some (s.place t.stop)

section Tokens

variable {b : Bool} {ts us : List Token} {t : Token}

lemma significant_space (h : t.isSpace) : significant b (t :: ts) = significant b ts := by
  have hk : t.kind = .space := by simpa [Token.isSpace] using h
  rw [significant, if_pos hk]

lemma significant_cons (h : t.isSpace = false) (hn : t.kind ≠ .newline) :
    significant b (t :: ts) = t :: significant false ts := by
  have hk : t.kind ≠ .space := by simpa [Token.isSpace] using h
  rw [significant, if_neg hk, if_neg hn]

lemma significant_newline (hn : t.kind = .newline) :
    significant false (t :: ts) = t :: significant true ts := by
  simp [significant, hn]

lemma significant_newline_again (hn : t.kind = .newline) :
    significant true (t :: ts) = significant true ts := by
  simp [significant, hn]

lemma significant_dropWhile (b : Bool) (ts : List Token) :
    significant b (ts.dropWhile Token.isSpace) = significant b ts := by
  induction ts with
  | nil => rfl
  | cons t ts ih =>
    by_cases h : t.isSpace
    · rw [List.dropWhile_cons_of_pos h, ih, significant_space h]
    · rw [List.dropWhile_cons_of_neg h]

lemma lastStop?_dropWhile (ts : List Token) :
    lastStop? (ts.dropWhile Token.isSpace) = lastStop? ts := by
  induction ts with
  | nil => rfl
  | cons t ts ih =>
    by_cases h : t.isSpace
    · rw [List.dropWhile_cons_of_pos h, ih]
      simp [lastStop?, h]
    · rw [List.dropWhile_cons_of_neg h]

lemma lastStop?_eq_none : lastStop? ts = none ↔ ∀ t ∈ ts, t.isSpace = true := by
  simp [lastStop?]

lemma lastStop?_cons (h : t.isSpace = false) :
    lastStop? (t :: ts) = some ((lastStop? ts).getD t.stop) := by
  unfold lastStop?
  rw [List.filter_cons_of_pos (by simp [h]), List.getLast?_cons]
  cases (ts.filter (!·.isSpace)).getLast? <;> rfl

lemma significant_eq_nil : significant false ts = [] ↔ ∀ t ∈ ts, t.isSpace = true := by
  induction ts with
  | nil => simp [significant]
  | cons t ts ih =>
    by_cases h : t.isSpace
    · simp [significant_space h, ih, h]
    · have h' : t.isSpace = false := by simpa using h
      by_cases hn : t.kind = .newline
      · simp [significant_newline hn, h]
      · simp [significant_cons h' hn, h]

lemma significant_isSpace {u : Token} (h : u ∈ significant b ts) : u.isSpace = false := by
  induction ts generalizing b with
  | nil => simp [significant] at h
  | cons t ts ih =>
    by_cases hs : t.isSpace
    · rw [significant_space hs] at h
      exact ih h
    · have hs' : t.isSpace = false := by simpa using hs
      by_cases hn : t.kind = .newline
      · cases b with
        | false =>
          rw [significant_newline hn] at h
          exact (List.mem_cons.mp h).elim (fun e => e ▸ hs') ih
        | true =>
          rw [significant_newline_again hn] at h
          exact ih h
      · rw [significant_cons hs' hn] at h
        exact (List.mem_cons.mp h).elim (fun e => e ▸ hs') ih

lemma head?_significant (ts : List Token) :
    (significant false ts).head? = (ts.dropWhile Token.isSpace).head? := by
  induction ts with
  | nil => rfl
  | cons t ts ih =>
    by_cases hs : t.isSpace
    · rw [significant_space hs, ih, List.dropWhile_cons_of_pos hs]
    · have hs' : t.isSpace = false := by simpa using hs
      rw [List.dropWhile_cons_of_neg hs]
      by_cases hn : t.kind = .newline
      · rw [significant_newline hn]; rfl
      · rw [significant_cons hs' hn]; rfl

lemma significant_true_head {u : Token} (h : (significant true ts).head? = some u) :
    u.kind ≠ .newline := by
  induction ts with
  | nil => simp [significant] at h
  | cons t ts ih =>
    by_cases hs : t.isSpace
    · rw [significant_space hs] at h
      exact ih h
    · have hs' : t.isSpace = false := by simpa using hs
      by_cases hn : t.kind = .newline
      · rw [significant_newline_again hn] at h
        exact ih h
      · rw [significant_cons hs' hn] at h
        simp only [List.head?_cons, Option.some.injEq] at h
        exact h ▸ hn

end Tokens

namespace Cursor

variable {s : Shift} {c d : Cursor} {b : Bool} {t : Token} {ts us : List Token}

lemma settle_rest : c.settle.rest = c.rest.dropWhile Token.isSpace := rfl
@[simp] lemma settle_last : c.settle.last = c.last := rfl
@[simp] lemma settle_finish : c.settle.finish = c.finish := rfl

lemma settle_length_le : c.settle.rest.length ≤ c.rest.length :=
  (List.dropWhile_sublist _).length_le

@[simp] lemma settle_settle : c.settle.settle = c.settle := by
  have hd : (c.rest.dropWhile Token.isSpace).dropWhile Token.isSpace =
      c.rest.dropWhile Token.isSpace := List.dropWhile_idempotent _ _
  have ht : (c.rest.dropWhile Token.isSpace).takeWhile Token.isSpace = [] := by
    have := List.takeWhile_append_dropWhile (p := Token.isSpace)
      (l := c.rest.dropWhile Token.isSpace)
    rw [hd] at this
    simpa using this
  simp [Cursor.settle, hd, ht]

lemma skim_of_nil (h : c.settle.rest = []) (kind : TokenKind) :
    c.skim kind = (none, c.settle) := by
  rw [skim, h]

lemma skim_of_kind (h : c.settle.rest = t :: ts) {kind : TokenKind} (hk : t.kind = kind) :
    c.skim kind = (some t, c.settle.behind t ts) := by
  rw [skim, h]
  exact if_pos hk

lemma skim_of_ne (h : c.settle.rest = t :: ts) {kind : TokenKind} (hk : t.kind ≠ kind) :
    c.skim kind = (none, c.settle) := by
  rw [skim, h]
  exact if_neg hk

inductive Next (s : Shift) (c d : Cursor) : Prop where
  | finished (hc : c.rest = []) (hd : d.settle.rest = [])
  | token (t : Token) (ts us : List Token) (hc : c.rest = t :: ts)
      (hd : d.settle.rest = move s t :: us) (hs : t.isSpace = false)
      (hr : significant (t.kind = .newline) us = move s ts)

lemma Image.next (h : Image s c d) : Next s c d := by
  have hr : significant false d.settle.rest = move s c.rest := by
    rw [settle_rest, significant_dropWhile, h.rest]
  cases hd : d.settle.rest with
  | nil =>
    rw [hd] at hr
    exact .finished (List.map_eq_nil_iff.mp hr.symm) hd
  | cons u us =>
    have hu : u.isSpace = false := by
      have hh := List.head?_dropWhile_not Token.isSpace d.rest
      rw [← settle_rest, hd] at hh
      simpa using hh
    rw [hd] at hr
    by_cases hn : u.kind = .newline
    · rw [significant_newline hn] at hr
      obtain ⟨t, ts, hc, ht, hts⟩ := List.map_eq_cons_iff.mp hr.symm
      subst ht
      exact .token t ts us hc hd hu (by rw [← Token.move_kind s, decide_eq_true hn]; exact hts.symm)
    · rw [significant_cons hu hn] at hr
      obtain ⟨t, ts, hc, ht, hts⟩ := List.map_eq_cons_iff.mp hr.symm
      subst ht
      exact .token t ts us hc hd hu (by rw [← Token.move_kind s, decide_eq_false hn]; exact hts.symm)

lemma dropWhile_move (h : significant b us = move s ts) : ts.dropWhile Token.isSpace = ts := by
  cases ts with
  | nil => rfl
  | cons t ts =>
    refine List.dropWhile_cons_of_neg ?_
    have ht : move s t ∈ significant b us := by rw [h]; exact List.mem_cons_self
    simpa using significant_isSpace ht

lemma Image.settle (h : Image s c d) : c.settle = c := by
  have hd : c.rest.dropWhile Token.isSpace = c.rest := dropWhile_move h.rest
  have ht : (c.rest.takeWhile Token.isSpace).length = 0 := by
    have := congrArg List.length (List.takeWhile_append_dropWhile (p := Token.isSpace) (l := c.rest))
    rw [List.length_append, hd] at this
    omega
  unfold Cursor.settle
  rw [hd, ht]
  rfl

lemma Image.peek? (h : Image s c d) : d.peek? = move s c.peek? := by
  unfold Cursor.peek?
  rw [h.settle]
  cases h.next with
  | finished hc hd => rw [hc, hd]; rfl
  | token t ts us hc hd hs hr => rw [hc, hd]; rfl

lemma Image.peekKind? (h : Image s c d) : d.peekKind? = c.peekKind? := by
  unfold Cursor.peekKind?
  rw [h.peek?]
  cases c.peek? <;> rfl

lemma Image.position (h : Image s c d) : d.position = s.place c.position := by
  unfold Cursor.position
  rw [h.peek?]
  cases c.peek? with
  | none => exact h.finish
  | some t => rfl

lemma Image.settled (h : Image s c d) : Image s c d.settle where
  rest := by rw [settle_rest, significant_dropWhile, h.rest]
  last := h.last
  finish := h.finish
  ends t ht := by rw [settle_rest, lastStop?_dropWhile]; exact h.ends t ht

@[simp] lemma behind_rest : (c.behind t ts).rest = ts.dropWhile Token.isSpace := rfl
@[simp] lemma behind_finish : (c.behind t ts).finish = c.finish := rfl
lemma behind_last :
    (c.behind t ts).last = ((ts.dropWhile Token.isSpace).head?.map Token.start).getD t.stop := rfl

lemma Image.ends_tail (h : Image s c d) (hc : c.rest = t :: ts)
    (hd : d.settle.rest = move s t :: us) (hs : t.isSpace = false) :
    (lastStop? us).getD (move s t).stop = s.place (ts.getLast?.getD t).stop := by
  have hl := h.ends (ts.getLast?.getD t) (by rw [hc, List.getLast?_cons])
  rw [← lastStop?_dropWhile, ← settle_rest, hd, lastStop?_cons (by exact hs)] at hl
  exact Option.some.inj hl

lemma Image.behind (h : Image s c d) (hc : c.rest = t :: ts)
    (hd : d.settle.rest = move s t :: us) (hs : t.isSpace = false)
    (hr : significant false us = move s ts) :
    Image s (c.behind t ts) (d.settle.behind (move s t) us) := by
  have hts := dropWhile_move hr
  have hhead : (us.dropWhile Token.isSpace).head? = move s ts.head? := by
    rw [← head?_significant, hr]
    cases ts <;> rfl
  have hends := h.ends_tail hc hd hs
  constructor
  · rw [behind_rest, behind_rest, significant_dropWhile, hts, hr]
  · rw [behind_last, behind_last, hhead, hts]
    cases ts with
    | nil =>
      have hnone : lastStop? us = none := lastStop?_eq_none.mpr (significant_eq_nil.mp hr)
      rw [hnone] at hends
      exact hends
    | cons u ts => rfl
  · exact h.finish
  · intro u hu
    rw [behind_rest, hts] at hu
    rw [behind_rest, lastStop?_dropWhile]
    rw [hu, Option.getD_some] at hends
    cases hl : lastStop? us with
    | none =>
      have hnil : ts = [] := by
        have := significant_eq_nil.mpr (lastStop?_eq_none.mp hl)
        rw [hr] at this
        exact List.map_eq_nil_iff.mp this
      rw [hnil] at hu
      simp at hu
    | some p => rw [hl] at hends; exact congrArg some hends

/-- The cursor behind the next line ends, at most `n` of them. -/
def pastLines (c : Cursor) : Nat → Cursor
  | 0 => c
  | n + 1 =>
    match c.skim .newline with
    | (some _, next) => next.pastLines n
    | (none, next) => next

/-- Passing the rest of a run of line ends, the first of which has been taken, leads to the image of
the cursor behind the one line end that stands for them. -/
lemma image_pastLines {v : Token} {n : Nat} (hlen : us.length ≤ n)
    (hr : significant true us = move s ts)
    (hends : (lastStop? us).getD v.stop = s.place (ts.getLast?.getD t).stop)
    (hc : c.rest = ts) (hcl : c.last = (ts.head?.map Token.start).getD t.stop)
    (hd : d.rest = us.dropWhile Token.isSpace)
    (hdl : d.last = ((us.dropWhile Token.isSpace).head?.map Token.start).getD v.stop)
    (hf : d.finish = s.place c.finish) : Image s c (d.pastLines n) := by
  induction n generalizing us v d with
  | zero =>
    obtain rfl : us = [] := List.length_eq_zero_iff.mp (by omega)
    obtain rfl : ts = [] := List.map_eq_nil_iff.mp hr.symm
    refine ⟨?_, ?_, hf, ?_⟩
    · rw [pastLines, hd, hc]; rfl
    · rw [pastLines, hdl, hcl]; exact hends
    · rw [hc]; simp
  | succ n ih =>
    have hsettle : d.settle.rest = us.dropWhile Token.isSpace := by
      rw [settle_rest, hd, List.dropWhile_idempotent]
    have hr' : significant true (us.dropWhile Token.isSpace) = move s ts := by
      rw [significant_dropWhile, hr]
    rw [← lastStop?_dropWhile] at hends
    cases hus : us.dropWhile Token.isSpace with
    | nil =>
      rw [hus] at hr' hends hsettle hdl
      obtain rfl : ts = [] := List.map_eq_nil_iff.mp hr'.symm
      have hpast : d.pastLines (n + 1) = d.settle := by
        rw [pastLines, skim_of_nil hsettle]
      refine ⟨?_, ?_, ?_, ?_⟩
      · rw [hpast, hsettle, hc]; rfl
      · rw [hpast, settle_last, hdl, hcl]; exact hends
      · rw [hpast]; exact hf
      · rw [hc]; simp
    | cons w ws =>
      have hw : w.isSpace = false := by
        have hh := List.head?_dropWhile_not Token.isSpace us
        rw [hus] at hh
        exact hh
      have hlen' : (w :: ws).length ≤ us.length := hus ▸ (List.dropWhile_sublist _).length_le
      rw [hus] at hr' hends hsettle hdl
      rw [lastStop?_cons hw, Option.getD_some] at hends
      by_cases hn : w.kind = .newline
      · have hpast : d.pastLines (n + 1) = (d.settle.behind w ws).pastLines n := by
          rw [pastLines, skim_of_kind hsettle hn]
        rw [significant_newline_again hn] at hr'
        rw [hpast]
        refine ih ?_ hr' hends ?_ ?_ hf
        · rw [List.length_cons] at hlen'; omega
        · rfl
        · rfl
      · have hpast : d.pastLines (n + 1) = d.settle := by
          rw [pastLines, skim_of_ne hsettle hn]
        rw [significant_cons hw hn] at hr'
        obtain ⟨u, ts', rfl, rfl, hts⟩ := List.map_eq_cons_iff.mp hr'.symm
        refine ⟨?_, ?_, ?_, ?_⟩
        · rw [hpast, hsettle, hc, significant_cons hw hn, ← hts]; rfl
        · rw [hpast, settle_last, hdl, hcl]; rfl
        · rw [hpast]; exact hf
        · intro x hx
          rw [hc, List.getLast?_cons] at hx
          rw [hpast, hsettle, lastStop?_cons hw, hends, List.getLast?_cons, ← Option.some.inj hx]
          rfl

/-- Taking the line end that stands for a run of them, on the one side, and passing the run on the
other. -/
lemma Image.past_newline (h : Image s c d) (hc : c.rest = t :: ts)
    (hd : d.settle.rest = move s t :: us) (hs : t.isSpace = false)
    (hr : significant true us = move s ts) {n : Nat} (hlen : us.length ≤ n) :
    Image s (c.behind t ts) ((d.settle.behind (move s t) us).pastLines n) := by
  have hts := dropWhile_move hr
  refine image_pastLines hlen hr (h.ends_tail hc hd hs) ?_ ?_ ?_ ?_ h.finish
  · rw [behind_rest, hts]
  · rw [behind_last, hts]
  · rfl
  · rfl

end Cursor

end DpLang
