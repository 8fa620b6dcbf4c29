import DpLang.Proofs.DerivationFile
import DpLang.Proofs.Munch
import DpLang.Proofs.Subexpressions

/-!
# Spans

A node spans the text from its start to its stop. The spans of a parsed file nest as its nodes do,
and the parts of a node stand one behind the other.
-/

namespace DpLang

section Places

/-- A place is not behind another one, in bytes and in lines. -/
def Position.Before (p q : Position) : Prop := p.offset ≤ q.offset ∧ p.line ≤ q.line

variable {p q r : Position}

lemma Position.Before.refl (p : Position) : p.Before p := ⟨Int.le_refl _, Int.le_refl _⟩

lemma Position.Before.trans (h : p.Before q) (h' : q.Before r) : p.Before r :=
  ⟨Int.le_trans h.1 h'.1, Int.le_trans h.2 h'.2⟩

lemma Position.before_after (p : Position) (text : Text) : p.Before (p.after text) := by
  refine ⟨?_, ?_⟩
  · rw [offset_after]
    omega
  · rw [line_after]
    omega

/-- Parts stand one behind the other between two places. -/
def InOrder : Position → List Part → Position → Prop
  | p, [], q => p.Before q
  | p, .node n :: ps, q => p.Before n.start ∧ n.start.Before n.stop ∧ InOrder n.stop ps q
  | p, .text _ _ :: ps, q => InOrder p ps q
  | p, .mark place :: ps, q => p.Before place ∧ InOrder place ps q

namespace InOrder

variable {ps qs : List Part}

lemma before (h : InOrder p ps q) : p.Before q := by
  induction ps generalizing p with
  | nil => exact h
  | cons part ps ih =>
    cases part with
    | node n => exact (h.1.trans h.2.1).trans (ih h.2.2)
    | text kind text => exact ih h
    | mark place => exact h.1.trans (ih h.2)

lemma from_before (h : InOrder q ps r) (hp : p.Before q) : InOrder p ps r := by
  induction ps generalizing q with
  | nil => exact hp.trans h
  | cons part ps ih =>
    cases part with
    | node n => exact ⟨hp.trans h.1, h.2⟩
    | text kind text => exact ih h hp
    | mark place => exact ⟨hp.trans h.1, h.2⟩

lemma to_before (h : InOrder p ps q) (hq : q.Before r) : InOrder p ps r := by
  induction ps generalizing p with
  | nil => exact h.trans hq
  | cons part ps ih =>
    cases part with
    | node n => exact ⟨h.1, h.2.1, ih h.2.2⟩
    | text kind text => exact ih h
    | mark place => exact ⟨h.1, ih h.2⟩

lemma append (h : InOrder p ps q) (h' : InOrder q qs r) : InOrder p (ps ++ qs) r := by
  induction ps generalizing p with
  | nil => exact h'.from_before h
  | cons part ps ih =>
    cases part with
    | node n => exact ⟨h.1, h.2.1, ih h.2.2⟩
    | text kind text => exact ih h
    | mark place => exact ⟨h.1, ih h.2⟩

end InOrder

end Places

section Nodes

/-- The nodes among parts. -/
def nodesOf : List Part → List Node
  | [] => []
  | .node n :: ps => n :: nodesOf ps
  | _ :: ps => nodesOf ps

lemma nodesOf_append (ps qs : List Part) : nodesOf (ps ++ qs) = nodesOf ps ++ nodesOf qs := by
  induction ps with
  | nil => rfl
  | cons part ps ih => cases part <;> simp [nodesOf, ih]

@[simp] lemma nodesOf_map (ns : List Node) : nodesOf (ns.map .node) = ns := by
  induction ns with
  | nil => rfl
  | cons n ns ih => rw [List.map_cons, nodesOf, ih]

lemma nodesOf_functionParts (head : FunctionHead) (params results body : List Node) :
    nodesOf (functionParts head params results body) =
      head.receiverType.toList.map .typeSpec ++ params ++ results ++ body := by
  have hreceiver : head.receiverType.toList.map (Part.node ∘ Node.typeSpec) =
      (head.receiverType.toList.map Node.typeSpec).map Part.node := by rw [List.map_map]
  simp only [functionParts, hreceiver, nodesOf_append, nodesOf_map, nodesOf, List.append_assoc]

lemma nodesOf_parts (n : Node) : nodesOf n.parts = n.children := by
  cases n with
  | functionDef head params results body => exact nodesOf_functionParts head params results body
  | importNames start path names stop => cases path <;> simp [Node.parts, Node.children, nodesOf]
  | forLoop => simp [Node.parts, Node.children, nodesOf, nodesOf_append]
  | ifElse => simp [Node.parts, Node.children, nodesOf, nodesOf_append]
  | literal => rfl
  | comment => rfl
  | _ => exact nodesOf_map _

/-- The nodes below a node lie inside its span, one behind the other, as do the places that it
remembers. -/
structure Node.Nests (n : Node) : Prop where
  inside : ∀ child ∈ n.children, n.start.Before child.start ∧ child.stop.Before n.stop
  ordered : n.children.Pairwise fun first second => first.stop.Before second.start
  parts : InOrder n.start n.parts n.stop

lemma InOrder.inside {ps : List Part} {p q : Position} (h : InOrder p ps q) :
    ∀ n ∈ nodesOf ps, p.Before n.start ∧ n.stop.Before q := by
  induction ps generalizing p with
  | nil => exact fun n hn => absurd hn List.not_mem_nil
  | cons part ps ih =>
    cases part with
    | node m =>
      refine List.forall_mem_cons.2 ⟨⟨h.1, h.2.2.before⟩, fun n hn => ?_⟩
      obtain ⟨hstart, hstop⟩ := ih h.2.2 n hn
      exact ⟨(h.1.trans h.2.1).trans hstart, hstop⟩
    | text kind text => exact ih h
    | mark place => exact fun n hn => ⟨h.1.trans (ih h.2 n hn).1, (ih h.2 n hn).2⟩

lemma InOrder.ordered {ps : List Part} {p q : Position} (h : InOrder p ps q) :
    (nodesOf ps).Pairwise fun first second => first.stop.Before second.start := by
  induction ps generalizing p with
  | nil => exact .nil
  | cons part ps ih =>
    cases part with
    | node m => exact .cons (fun n hn => (h.2.2.inside n hn).1) (ih h.2.2)
    | text kind text => exact ih h
    | mark place => exact ih h.2

lemma InOrder.nests {n : Node} (h : InOrder n.start n.parts n.stop) : n.Nests where
  inside := by
    rw [← nodesOf_parts]
    exact h.inside
  ordered := by
    rw [← nodesOf_parts]
    exact h.ordered
  parts := h

/-- The node is a parameter that has taken its type from one further to the right, where the type
stands. -/
def InheritsType (all : List Node) (n : Node) : Prop :=
  ∃ head params results body before after start name type stop start' name' stop',
    Node.functionDef head params results body ∈ all ∧ params = before ++ n :: after ∧
      n = .parameter start name (some type) stop ∧
      Node.parameter start' name' (some type) stop' ∈ after ∧
      (Node.parameter start' name' (some type) stop').Nests

lemma InheritsType.mono {all more : List Node} {n : Node} (h : InheritsType all n)
    (hsub : ∀ head params results body, Node.functionDef head params results body ∈ all →
      Node.functionDef head params results body ∈ more) : InheritsType more n := by
  obtain ⟨head, params, results, body, before, after, start, name, type, stop, start', name', stop',
    hmem, hrest⟩ := h
  exact ⟨head, params, results, body, before, after, start, name, type, stop, start', name', stop',
    hsub _ _ _ _ hmem, hrest⟩

/-- Where a node stands, in a tree with the given nodes. -/
def SpanFits (all : List Node) (n : Node) : Prop :=
  n.start.Before n.stop ∧ (n.Nests ∨ InheritsType all n)

lemma SpanFits.mono {all more : List Node} {n : Node} (h : SpanFits all n)
    (hsub : ∀ head params results body, Node.functionDef head params results body ∈ all →
      Node.functionDef head params results body ∈ more) : SpanFits more n :=
  ⟨h.1, h.2.imp_right fun hn => hn.mono hsub⟩

end Nodes

section Parameters

variable {params filled : List Node}

/-- What may happen to a parameter when types are filled in: nothing, or it takes the type of one
behind it. -/
def FilledFrom (params : List Node) (n : Node) (after : List Node) : Prop :=
  n ∈ params ∨ ∃ start name type stop start' name' stop',
    n = .parameter start name (some type) stop ∧ Node.parameter start name none stop ∈ params ∧
      Node.parameter start' name' (some type) stop' ∈ after ∧
      Node.parameter start' name' (some type) stop' ∈ params

/-- A node stays as it is, or it is a parameter and takes the type of one behind it. -/
lemma typesFilled_at (h : Parser.TypesFilled params filled) {i : Nat} {m : Node} (hm : params[i]? = some m) :
    filled[i]? = some m ∨ ∃ start name spec stop, m = .parameter start name none stop ∧
      (params.drop (i + 1)).findSome? Node.ownType? = some spec ∧
      filled[i]? = some (.parameter start name (some spec) stop) := by
  cases m with
  | parameter start name own stop =>
    obtain ⟨spec, hspec, hfilled⟩ := h.parameter i start name own stop hm
    obtain ⟨hlt, hfirst⟩ := List.getElem?_eq_some_iff.1 hm
    rw [List.drop_eq_getElem_cons hlt, hfirst, List.findSome?_cons] at hspec
    cases own with
    | some own =>
      obtain rfl : own = spec := Option.some.inj hspec
      exact .inl hfilled
    | none => exact .inr ⟨start, name, spec, stop, rfl, hspec, hfilled⟩
  | _ => exact .inl (h.other i _ hm rfl)

lemma typesFilled_places (h : Parser.TypesFilled params filled) :
    filled.map (fun n => (n.start, n.stop)) = params.map (fun n => (n.start, n.stop)) := by
  apply List.ext_getElem?
  intro i
  rw [List.getElem?_map, List.getElem?_map]
  cases hm : params[i]? with
  | none =>
    rw [List.getElem?_eq_none_iff, ← h.length, ← List.getElem?_eq_none_iff] at hm
    rw [hm]
  | some m =>
    rcases typesFilled_at h hm with hsame | ⟨start, name, spec, stop, rfl, -, hfilled⟩
    · rw [hsame]
    · rw [hfilled]
      rfl

lemma typesFilled_from (h : Parser.TypesFilled params filled) {before after : List Node} {n : Node}
    (hsplit : filled = before ++ n :: after) : FilledFrom params n after := by
  have hn : filled[before.length]? = some n := by simp [hsplit]
  have hlt : before.length < params.length := by simp [← h.length, hsplit]
  have hm := List.getElem?_eq_getElem hlt
  rcases typesFilled_at h hm with hsame | ⟨start, name, spec, stop, hopen, hspec, hfilled⟩
  · rw [hn] at hsame
    exact .inl (List.mem_of_getElem? (hm.trans hsame.symm))
  · obtain ⟨typed, htyped, hown⟩ := List.exists_of_findSome?_eq_some hspec
    obtain ⟨k, hk⟩ := List.mem_iff_getElem?.1 htyped
    rw [List.getElem?_drop] at hk
    rw [hn] at hfilled
    obtain rfl := Option.some.inj hfilled
    rw [hopen] at hm
    rcases typesFilled_at h hk with hsame | ⟨_, _, _, _, rfl, -⟩
    · have hafter : after[k]? = some typed := by
        rw [hsplit, Nat.add_assoc, List.getElem?_append_right (by omega), Nat.add_sub_cancel_left,
          Nat.add_comm 1] at hsame
        exact hsame
      cases typed with
      | parameter start' name' own stop' =>
        obtain rfl : own = some spec := hown
        exact .inr ⟨start, name, spec, stop, start', name', stop', rfl, List.mem_of_getElem? hm,
          List.mem_of_getElem? hafter, List.mem_of_getElem? hk⟩
      | _ => cases hown
    · cases hown

lemma inOrder_of_places {ns ms : List Node} {qs : List Part} {p q : Position}
    (hplaces : ms.map (fun n => (n.start, n.stop)) = ns.map (fun n => (n.start, n.stop)))
    (h : InOrder p (ns.map .node ++ qs) q) : InOrder p (ms.map .node ++ qs) q := by
  induction ns generalizing ms p with
  | nil =>
    obtain rfl := List.map_eq_nil_iff.1 hplaces
    exact h
  | cons n ns ih =>
    cases ms with
    | nil => cases hplaces
    | cons m ms =>
      obtain ⟨hplace, hplaces⟩ := List.cons.inj hplaces
      obtain ⟨hstart, hstop⟩ := Prod.mk.inj hplace
      obtain ⟨h1, h2, h3⟩ := h
      refine ⟨by rw [hstart]; exact h1, by rw [hstart, hstop]; exact h2, ?_⟩
      rw [hstop]
      exact ih hplaces h3

lemma InOrder.imp_tail {ps qs qs' : List Part} {p r : Position} (h : InOrder p (ps ++ qs) r)
    (himp : ∀ q, InOrder q qs r → InOrder q qs' r) : InOrder p (ps ++ qs') r := by
  induction ps generalizing p with
  | nil => exact himp p h
  | cons part ps ih =>
    cases part with
    | node n => exact ⟨h.1, h.2.1, ih h.2.2⟩
    | text kind text => exact ih h
    | mark place => exact ⟨h.1, ih h.2⟩

lemma inOrder_functionParts {head : FunctionHead} {results body : List Node} {p q : Position}
    (hplaces : filled.map (fun n => (n.start, n.stop)) = params.map (fun n => (n.start, n.stop)))
    (h : InOrder p (functionParts head params results body) q) :
    InOrder p (functionParts head filled results body) q :=
  h.imp_tail fun _ hparams => inOrder_of_places hplaces hparams

end Parameters

section Trees

lemma Node.mem_walk (n : Node) : n ∈ n.walk := by
  rw [Node.walk_eq]
  exact List.mem_cons_self

/-- Every node of some trees fits, and their roots nest. -/
structure SpansFit (ns : List Node) : Prop where
  nests : ∀ n ∈ ns, n.Nests
  fits : ∀ n ∈ Node.walkAll ns, SpanFits (Node.walkAll ns) n

lemma SpansFit.nil : SpansFit [] := ⟨by simp, by simp [Node.walkAll]⟩

lemma SpansFit.append {ns ms : List Node} (h : SpansFit ns) (h' : SpansFit ms) :
    SpansFit (ns ++ ms) where
  nests n hn := (List.mem_append.1 hn).elim (h.nests n) (h'.nests n)
  fits n hn := by
    rw [walkAll_append] at hn ⊢
    rcases List.mem_append.1 hn with hn | hn
    · exact (h.fits n hn).mono fun _ _ _ _ hmem => List.mem_append_left _ hmem
    · exact (h'.fits n hn).mono fun _ _ _ _ hmem => List.mem_append_right _ hmem

lemma SpansFit.root {n : Node} (h : SpansFit n.children) (hn : InOrder n.start n.parts n.stop) :
    SpansFit [n] where
  nests := by simpa using hn.nests
  fits m hm := by
    rw [walkAll_cons, Node.walk_eq, Node.walkAll, List.append_nil] at hm ⊢
    rcases List.mem_cons.1 hm with rfl | hm
    · exact ⟨hn.before, .inl hn.nests⟩
    · exact (h.fits m hm).mono fun _ _ _ _ hmem => List.mem_cons_of_mem _ hmem

lemma functionDef_notMem_walk {n : Node} (h : n.IsOpen) {head : FunctionHead}
    {params results body : List Node} : Node.functionDef head params results body ∉ n.walk := by
  rcases h with ⟨start, source, rfl⟩ | ⟨start, name, type, stop, rfl⟩
  · simp [Node.walk]
  · cases type <;> simp [Node.walk]

lemma SpansFit.function {head : FunctionHead} {params filled results body : List Node}
    (h : SpansFit (head.receiverType.toList.map .typeSpec ++ params ++ results ++ body))
    (hfill : Parser.fillTypes params = .ok filled) (hparams : ∀ n ∈ params, n.IsOpen)
    (hn : InOrder head.start (functionParts head params results body) head.stop) :
    SpansFit [.functionDef head filled results body] := by
  obtain ⟨next, hfill⟩ := Parser.exists_filledTypes hfill
  have htypes := (Parser.typesFilled_of_ok hfill).1
  have hplaces := typesFilled_places htypes
  have hroot : (Node.functionDef head filled results body).Nests :=
    InOrder.nests (n := .functionDef head filled results body) (inOrder_functionParts hplaces hn)
  have hall : Node.walkAll [.functionDef head filled results body] =
      .functionDef head filled results body :: Node.walkAll
        (head.receiverType.toList.map .typeSpec ++ filled ++ results ++ body) := by
    rw [walkAll_cons, Node.walk_eq, Node.walkAll, List.append_nil]
    rfl
  -- Nodes that stay are judged among the nodes of the new tree.
  have hkept {n m : Node}
      (hm : m ∈ head.receiverType.toList.map .typeSpec ++ params ++ results ++ body)
      (hn : n ∈ m.walk) : SpanFits (Node.walkAll [.functionDef head filled results body]) n := by
    refine (h.fits n (mem_walkAll.2 ⟨m, hm, hn⟩)).mono fun _ _ _ _ hmem => ?_
    obtain ⟨k, hk, hmem⟩ := mem_walkAll.1 hmem
    rw [hall]
    refine List.mem_cons_of_mem _ (mem_walkAll.2 ⟨k, ?_, hmem⟩)
    simp only [List.mem_append] at hk ⊢
    rcases hk with ((hk | hk) | hk) | hk
    · exact .inl (.inl (.inl hk))
    · exact absurd hmem (functionDef_notMem_walk (hparams k hk))
    · exact .inl (.inr hk)
    · exact .inr hk
  have hparam {m : Node} (hm : m ∈ params) :
      m ∈ head.receiverType.toList.map .typeSpec ++ params ++ results ++ body := by
    simp [hm]
  refine ⟨by simpa using hroot, fun n hmem => ?_⟩
  rw [hall] at hmem
  rcases List.mem_cons.1 hmem with rfl | hmem
  · exact ⟨hn.before, .inl hroot⟩
  obtain ⟨m, hm, hmem⟩ := mem_walkAll.1 hmem
  simp only [List.mem_append] at hm
  rcases hm with ((hm | hm) | hm) | hm
  · exact hkept (by simp [hm]) hmem
  · obtain ⟨before, after, hsplit⟩ := List.append_of_mem hm
    rcases typesFilled_from htypes hsplit with
      hm | ⟨start, name, type, stop, start', name', stop', rfl, hopen, hafter, hown⟩
    · exact hkept (hparam hm) hmem
    · have hwalk : n = .parameter start name (some type) stop ∨ n = .typeSpec type := by
        simpa [Node.walk] using hmem
      rcases hwalk with rfl | rfl
      · have hplace := (hkept (hparam hopen) (Node.mem_walk _)).1
        refine ⟨hplace, .inr ⟨head, filled, results, body, before, after, start, name, type, stop,
          start', name', stop', ?_, hsplit, rfl, hafter, h.nests _ (hparam hown)⟩⟩
        rw [hall]
        exact List.mem_cons_self
      · exact hkept (hparam hown) (by simp [Node.walk])
  · exact hkept (by simp [hm]) hmem
  · exact hkept (by simp [hm]) hmem

end Trees

section Derivations

/-- Tokens stand one behind the other. The last of them stops at `finish`. -/
def InPlace (finish : Position) : List Token → Prop
  | [] => True
  | t :: ts => t.stop.Before (placeOf finish ts) ∧ InPlace finish ts

lemma Token.start_before_stop (t : Token) : t.start.Before t.stop := t.start.before_after t.text

lemma Derives.spans {finish : Position} {ts us : List Token} {ps : List Part}
    (h : Derives finish ts ps us) (hts : InPlace finish ts) :
    InPlace finish us ∧ InOrder (placeOf finish ts) ps (placeOf finish us) ∧
      SpansFit (nodesOf ps) := by
  induction h with
  | done ts => exact ⟨hts, .refl _, .nil⟩
  | @silent t ts us ps ht _ ih =>
    obtain ⟨hus, hps, hfit⟩ := ih hts.2
    exact ⟨hus, hps.from_before (t.start_before_stop.trans hts.1), hfit⟩
  | @text t ts us ps ht _ ih =>
    obtain ⟨hus, hps, hfit⟩ := ih hts.2
    exact ⟨hus, hps.from_before (t.start_before_stop.trans hts.1), hfit⟩
  | mark _ ih =>
    obtain ⟨hus, hps, hfit⟩ := ih hts
    exact ⟨hus, ⟨.refl _, hps⟩, hfit⟩
  | @group opening closing ts us vs ps qs ho hc _ _ inner ih =>
    obtain ⟨hclosing, hps, hfit⟩ := inner hts.2
    obtain ⟨hvs, hqs, hfit'⟩ := ih hclosing.2
    have hbehind := hqs.from_before (closing.start_before_stop.trans hclosing.1)
    rw [nodesOf_append]
    exact ⟨hvs, (hps.append hbehind).from_before (opening.start_before_stop.trans hts.1),
      hfit.append hfit'⟩
  | @comment t ts us ps ht _ ih =>
    obtain ⟨hus, hps, hfit⟩ := ih hts.2
    refine ⟨hus, ⟨.refl _, t.start_before_stop, hps.from_before hts.1⟩, ?_⟩
    exact (SpansFit.root (n := .comment t.start t.text) .nil t.start_before_stop).append hfit
  | @expression value ts us vs ps _ _ inner ih =>
    obtain ⟨hus, ⟨hstart, hvalue, hstop⟩, hfit⟩ := inner hts
    obtain ⟨hvs, hps, hfit'⟩ := ih hus
    refine ⟨hvs, ⟨hstart, hvalue, hps.from_before hstop⟩, ?_⟩
    exact (SpansFit.root (n := .expression value) hfit ⟨.refl _, hvalue, .refl _⟩).append hfit'
  | @node n ts us vs ps hstart hstop _ _ inner ih =>
    obtain ⟨hus, hparts, hfit⟩ := inner hts
    obtain ⟨hvs, hps, hfit'⟩ := ih hus
    rw [nodesOf_parts] at hfit
    rw [← hstop] at hparts hps
    have hnode : (placeOf finish ts).Before n.start ∧ InOrder n.start n.parts n.stop := by
      rcases hstart with hstart | ⟨first, rest, hfirst, hstart⟩
      · rw [hstart]
        exact ⟨.refl _, hparts⟩
      · rw [hfirst] at hparts ⊢
        rw [hstart]
        exact ⟨hparts.1, .refl _, hparts.2⟩
    exact ⟨hvs, ⟨hnode.1, hnode.2.before, hps⟩, (hfit.root hnode.2).append hfit'⟩
  | function hfill hparams hstart hstop _ _ inner ih =>
    obtain ⟨hus, hparts, hfit⟩ := inner hts
    obtain ⟨hvs, hps, hfit'⟩ := ih hus
    rw [← hstart, ← hstop] at hparts
    rw [← hstop] at hps
    rw [nodesOf_functionParts] at hfit
    refine ⟨hvs, ⟨?_, hparts.before, hps⟩, (hfit.function hfill hparams hparts).append hfit'⟩
    rw [← hstart]
    exact .refl _

end Derivations

section Texts

/-- Each token starts where the one in front of it stops. -/
def Adjoin : Position → List Token → Prop
  | _, [] => True
  | p, t :: ts => t.start = p ∧ Adjoin t.stop ts

lemma adjoin_of_places {p : Position} {ts : List Token}
    (h : ∀ before t others, ts = before ++ t :: others → t.start = p.after (sourceOf before)) :
    Adjoin p ts := by
  induction ts generalizing p with
  | nil => trivial
  | cons t ts ih =>
    have hstart : t.start = p := h [] t ts rfl
    refine ⟨hstart, ih fun before u others hsplit => ?_⟩
    rw [h (t :: before) u others (by rw [hsplit]; rfl), Token.stop, hstart, ← after_append]
    rfl

variable {p : Position} {ts : List Token}

lemma Adjoin.before_head (h : Adjoin p ts) : ∀ t ∈ (solidTokens ts).head?, p.Before t.start := by
  induction ts generalizing p with
  | nil => simp [solidTokens]
  | cons t ts ih =>
    obtain ⟨rfl, hrest⟩ := h
    by_cases hspace : t.isSpace = true
    · rw [solidTokens, List.filter_cons_of_neg (by simp [hspace])]
      exact fun u hu => t.start_before_stop.trans (ih hrest u hu)
    · rw [solidTokens, List.filter_cons_of_pos (by simpa using hspace)]
      intro u hu
      obtain rfl := Option.some.inj hu
      exact .refl _

lemma Adjoin.inPlace (h : Adjoin p ts) {finish : Position}
    (hfinish : ∀ t ∈ (solidTokens ts).getLast?, t.stop = finish) :
    InPlace finish (solidTokens ts) := by
  induction ts generalizing p with
  | nil => trivial
  | cons t ts ih =>
    obtain ⟨rfl, hrest⟩ := h
    by_cases hspace : t.isSpace = true
    · rw [solidTokens, List.filter_cons_of_neg (by simp [hspace])] at hfinish ⊢
      exact ih hrest hfinish
    · rw [solidTokens, List.filter_cons_of_pos (by simpa using hspace), ← solidTokens]
        at hfinish ⊢
      have hhead := hrest.before_head
      cases hs : solidTokens ts with
      | nil =>
        rw [hs] at hfinish
        refine ⟨?_, trivial⟩
        rw [hfinish t rfl]
        exact .refl _
      | cons u us =>
        rw [hs] at hhead
        have hlast := ih hrest (by rw [hs] at hfinish ⊢; simpa using hfinish)
        rw [hs] at hlast
        exact ⟨hhead u rfl, hlast⟩

lemma Adjoin.last_before (h : Adjoin p ts) :
    ∀ t ∈ (solidTokens ts).getLast?, t.stop.Before (p.after (sourceOf ts)) := by
  induction ts generalizing p with
  | nil => simp [solidTokens]
  | cons t ts ih =>
    obtain ⟨rfl, hrest⟩ := h
    have hsource : t.start.after (sourceOf (t :: ts)) = t.stop.after (sourceOf ts) := by
      rw [sourceOf, List.flatMap_cons, after_append]
      rfl
    rw [hsource]
    by_cases hspace : t.isSpace = true
    · rw [solidTokens, List.filter_cons_of_neg (by simp [hspace])]
      exact ih hrest
    · rw [solidTokens, List.filter_cons_of_pos (by simpa using hspace), ← solidTokens,
        List.getLast?_cons]
      intro u hu
      obtain rfl := Option.some.inj hu
      cases hs : (solidTokens ts).getLast? with
      | none => exact t.stop.before_after _
      | some v => exact ih hrest v (by rw [hs]; rfl)

variable {text : Text} {tokens : List Token} {nodes : List Node}

/-- The spans of a parsed file nest and are ordered, in bytes and in lines. The nodes of the file
stand one behind the other within the text. Every node starts before it stops, and what is below it
stands one behind the other within its span, as do the places it remembers, such as the start and
the stop of the first block of a choice. Only a parameter that takes its type from one further to
the right has its type outside. -/
theorem spans_nest (ht : tokenize p text = .ok tokens) (hp : parse tokens = .ok nodes) :
    InOrder p (nodes.map .node) (p.after text) ∧
      ∀ n ∈ Node.walkAll nodes, n.start.Before n.stop ∧
        (n.Nests ∨ InheritsType (Node.walkAll nodes) n) := by
  obtain ⟨-, hsource, hplaces⟩ := tokenizeWithin_covers ht
  have hadjoin := adjoin_of_places hplaces
  -- Where the last token that is not blank stops.
  obtain ⟨finish, hfinish, hfirst, hlast⟩ : ∃ finish,
      (∀ t ∈ (solidTokens tokens).getLast?, t.stop = finish) ∧
        p.Before (placeOf finish (solidTokens tokens)) ∧ finish.Before (p.after text) := by
    cases hs : (solidTokens tokens).getLast? with
    | none =>
      rw [List.getLast?_eq_none_iff.1 hs]
      exact ⟨p, by simp, .refl p, p.before_after text⟩
    | some t =>
      refine ⟨t.stop, by simp, ?_, hsource ▸ hadjoin.last_before t hs⟩
      cases hh : solidTokens tokens with
      | nil => rw [hh] at hs; cases hs
      | cons u us => exact hadjoin.before_head u (by rw [hh]; rfl)
  obtain ⟨-, horder, hfit⟩ := (derives_of_parse hp hfinish).spans (hadjoin.inPlace hfinish)
  rw [nodesOf_map] at hfit
  exact ⟨(horder.from_before hfirst).to_before hlast, hfit.fits⟩

/-- A choice with both blocks, operations with parentheses around their operands, and a parameter
that inherits its type. -/
theorem spans_nest_choice :
    let source : Text :=
      "f(a, b t) \x7b\n if (a + 1) * (b) \x7b\n g((2), 3)\n \x7d else \x7b // c\n \x7d\n\x7d\n"
    ∃ tokens nodes, tokenize (.startOf "f") source = .ok tokens ∧ parse tokens = .ok nodes ∧
      InOrder (.startOf "f") (nodes.map .node) ((Position.startOf "f").after source) ∧
        ∀ n ∈ Node.walkAll nodes, n.start.Before n.stop ∧
          (n.Nests ∨ InheritsType (Node.walkAll nodes) n) := by
  intro source
  obtain ⟨tokens, nodes, ht, hp⟩ := exists_parsed (.startOf "f") source (by decide +kernel)
  exact ⟨tokens, nodes, ht, hp, spans_nest ht hp⟩

end Texts

end DpLang
