import DpLang.Files.Store
import Mathlib.Data.List.Basic
import Mathlib.Data.List.TakeWhile
import Mathlib.Tactic.Lemma

/-!
# Names that lead to files

The directory in which a temporary file is made is found from the text of a name, with its dots worked
out, while the file itself is looked up name by name. Where the file is found, its directory is found
as well, and the name is one that a file can be moved to.
-/

namespace DpLang

namespace Text

variable {mark : Char} {t : Text}

lemma splitOn_ne_nil (mark : Char) (t : Text) : splitOn mark t ≠ [] := by
  cases t with
  | nil => simp [splitOn]
  | cons c t =>
    rw [splitOn]
    split
    · simp
    · split <;> simp

lemma splitOn_append (mark : Char) (a b : Text) :
    splitOn mark (a ++ mark :: b) = splitOn mark a ++ splitOn mark b := by
  induction a with
  | nil => simp [splitOn]
  | cons c a ih =>
    rw [List.cons_append, splitOn, splitOn, ih]
    split
    · rfl
    · obtain ⟨piece, pieces, hpieces⟩ := List.exists_cons_of_ne_nil (splitOn_ne_nil mark a)
      rw [hpieces]
      rfl

lemma splitOn_of_notMem (h : mark ∉ t) : splitOn mark t = [t] := by
  induction t with
  | nil => rfl
  | cons c t ih =>
    rw [List.mem_cons, not_or] at h
    rw [splitOn, if_neg (Ne.symm h.1), ih h.2]

lemma join_splitOn (mark : Char) (t : Text) : join [mark] (splitOn mark t) = t := by
  induction t with
  | nil => rfl
  | cons c t ih =>
    obtain ⟨piece, pieces, hpieces⟩ := List.exists_cons_of_ne_nil (splitOn_ne_nil mark t)
    rw [hpieces] at ih
    rw [splitOn, hpieces, ← ih]
    split
    · next hc => cases pieces <;> simp [join, List.intercalate, hc]
    · cases pieces <;> simp [join, List.intercalate]

lemma exists_last (mark : Char) (t : Text) :
    (mark ∉ t) ∨ ∃ front last, t = front ++ mark :: last ∧ mark ∉ last := by
  induction t with
  | nil => simp
  | cons c t ih =>
    obtain hnot | ⟨front, last, rfl, hlast⟩ := ih
    · by_cases hc : mark = c
      · exact .inr ⟨[], t, by rw [hc]; rfl, hnot⟩
      · exact .inl (by simp [hc, hnot])
    · exact .inr ⟨c :: front, last, rfl, hlast⟩

lemma byteLength_append (a b : Text) : (a ++ b).byteLength = a.byteLength + b.byteLength := by
  have hfold (n : Nat) : b.foldl (fun n c => n + c.utf8Size) n = n + b.byteLength := by
    induction b generalizing n with
    | nil => rfl
    | cons c b ih => rw [byteLength, List.foldl_cons, List.foldl_cons, ih, ih, Nat.zero_add, Nat.add_assoc]
  rw [byteLength, List.foldl_append, hfold]
  rfl

/-- The number of bytes of names with a slash behind each of them. -/
def slashedLength : List Text → Nat
  | [] => 0
  | name :: names => name.byteLength + 1 + slashedLength names

lemma slashedLength_append (a b : List Text) :
    slashedLength (a ++ b) = slashedLength a + slashedLength b := by
  induction a with
  | nil => rw [List.nil_append, slashedLength, Nat.zero_add]
  | cons name a ih =>
    rw [List.cons_append, slashedLength, slashedLength, ih]
    omega

lemma slashedLength_le_of_sublist {a b : List Text} (h : a.Sublist b) :
    slashedLength a ≤ slashedLength b := by
  induction h with
  | slnil => exact Nat.le_refl _
  | cons name _ ih => exact Nat.le_trans ih (Nat.le_add_left _ _)
  | cons_cons name _ ih => exact Nat.add_le_add_left ih _

lemma byteLength_join (names : List Text) :
    (join ['/'] names).byteLength = slashedLength names - 1 := by
  match names with
  | [] => rfl
  | [name] => simp [join, List.intercalate, slashedLength]
  | name :: next :: names =>
    have hjoin : join ['/'] (name :: next :: names) = name ++ (['/'] ++ join ['/'] (next :: names)) := by
      simp [join, List.intercalate]
    have hslash : byteLength ['/'] = 1 := rfl
    have ih := byteLength_join (next :: names)
    rw [hjoin, byteLength_append, byteLength_append, ih, hslash]
    simp only [slashedLength]
    omega

lemma mem_join {c : Char} {separator : Text} (hc : c ∉ separator) (names : List Text) :
    c ∈ join separator names ↔ ∃ name ∈ names, c ∈ name := by
  match names with
  | [] => simp [join, List.intercalate]
  | [name] => simp [join, List.intercalate]
  | name :: next :: names =>
    have hjoin : join separator (name :: next :: names) =
        name ++ (separator ++ join separator (next :: names)) := by
      simp [join, List.intercalate]
    rw [hjoin, List.mem_append, List.mem_append, mem_join hc (next :: names)]
    simp [hc]

end Text

namespace StorePath

variable {start here path : StorePath} {name : Text} {names : List Text}

/-- A name that leads to something in a directory. -/
def IsProper (name : Text) : Prop := name ≠ [] ∧ name ≠ ['.'] ∧ name ≠ ['.', '.']

lemma step_dot (here : StorePath) : here.step ['.'] = here := by simp [step]

lemma step_dots (here : StorePath) : here.step ['.', '.'] = here.parent := by simp [step]

lemma step_proper (h : IsProper name) : here.step name = here ++ [name] := by
  obtain ⟨hempty, hdot, hdots⟩ := h
  simp [step, hempty, hdot, hdots]

lemma name_cases (name : Text) :
    name = [] ∨ name = ['.'] ∨ name = ['.', '.'] ∨ IsProper name := by
  by_cases hempty : name = []
  · exact .inl hempty
  by_cases hdot : name = ['.']
  · exact .inr (.inl hdot)
  by_cases hdots : name = ['.', '.']
  · exact .inr (.inr (.inl hdots))
  · exact .inr (.inr (.inr ⟨hempty, hdot, hdots⟩))

lemma parent_cases (here : StorePath) :
    (here = root ∧ here.parent = here) ∨
      (here.isAbove = true ∧ here ≠ root ∧ here.parent = here ++ [['.', '.']]) ∨
      (here.isAbove = false ∧ here ≠ root ∧ here.parent = here.dropLast) := by
  rw [parent]
  by_cases hroot : here = root
  · exact .inl ⟨hroot, by rw [if_pos hroot, hroot]⟩
  · rw [if_neg hroot]
    cases habove : here.isAbove with
    | true => exact .inr (.inl ⟨rfl, hroot, rfl⟩)
    | false => exact .inr (.inr ⟨rfl, hroot, rfl⟩)

/-- A path as names lead to it: names that lead upwards come first. -/
inductive Plain : StorePath → Prop where
  | working : Plain []
  | root : Plain root
  | up {here : StorePath} (habove : here.isAbove = true) : Plain (here ++ [['.', '.']])
  | down {here : StorePath} {name : Text} (h : Plain here) (hname : IsProper name) :
      Plain (here ++ [name])

lemma Plain.of_parent (h : Plain here) (habove : here.isAbove = false) (hroot : here ≠ StorePath.root) :
    ∃ base name, here = base ++ [name] ∧ Plain base ∧ IsProper name := by
  cases h with
  | working => cases habove
  | root => exact absurd rfl hroot
  | @up here hhere =>
    have hall : StorePath.isAbove (here ++ [['.', '.']]) = true := by
      rw [isAbove, List.all_append, ← isAbove, hhere]
      rfl
    rw [hall] at habove
    cases habove
  | @down base name hbase hname => exact ⟨base, name, rfl, hbase, hname⟩

lemma Plain.step (h : Plain here) (name : Text) : Plain (here.step name) := by
  obtain rfl | rfl | rfl | hname := name_cases name
  · exact h
  · rwa [step_dot]
  · rw [step_dots]
    obtain ⟨-, hparent⟩ | ⟨habove, -, hparent⟩ | ⟨habove, hroot, hparent⟩ := here.parent_cases
    · rwa [hparent]
    · rw [hparent]
      exact .up habove
    · obtain ⟨base, name, rfl, hbase, -⟩ := h.of_parent habove hroot
      rw [hparent, List.dropLast_concat]
      exact hbase
  · rw [step_proper hname]
    exact h.down hname

lemma plain_origin (name : Text) : Plain (origin name) := by
  rw [origin]
  split
  · exact .root
  · exact .working

/-- The names of a path, without the mark of the root. -/
def words (path : StorePath) : List Text := path.filter (!·.isEmpty)

lemma words_append (a b : StorePath) : words (a ++ b) = words a ++ words b := List.filter_append ..

lemma words_proper (h : IsProper name) : words [name] = [name] := by
  rw [words, List.filter_cons_of_pos (by simpa using h.1), List.filter_nil]

lemma words_origin (name : Text) : words (origin name) = [] := by
  rw [origin]
  split <;> rfl

/-- The names of a path come from the names that lead to it. -/
lemma words_step_subset (here : StorePath) (name : Text) :
    ∀ word ∈ words (here.step name), word ∈ words here ∨ word = name := by
  intro word hword
  obtain rfl | rfl | rfl | hname := name_cases name
  · exact .inl hword
  · rw [step_dot] at hword
    exact .inl hword
  · rw [step_dots] at hword
    obtain ⟨-, hparent⟩ | ⟨-, -, hparent⟩ | ⟨-, -, hparent⟩ := here.parent_cases
    · rw [hparent] at hword
      exact .inl hword
    · rw [hparent, words_append, List.mem_append] at hword
      exact hword.imp_right fun h => by simpa [words] using h
    · rw [hparent] at hword
      exact .inl ((here.dropLast_sublist.filter _).mem hword)
  · rw [step_proper hname, words_append, words_proper hname, List.mem_append, List.mem_singleton] at hword
    exact hword

lemma words_walk_subset (here : StorePath) (names : List Text) :
    ∀ word ∈ words (here.walk names), word ∈ words here ∨ word ∈ names := by
  induction names generalizing here with
  | nil => exact fun word hword => .inl hword
  | cons name names ih =>
    intro word hword
    obtain hstep | hmem := ih (here.step name) word hword
    · obtain hhere | rfl := words_step_subset here name word hstep
      · exact .inl hhere
      · exact .inr List.mem_cons_self
    · exact .inr (List.mem_cons_of_mem name hmem)

lemma slashedLength_step_le (here : StorePath) (name : Text) :
    Text.slashedLength (words (here.step name)) ≤
      Text.slashedLength (words here) + (name.byteLength + 1) := by
  obtain rfl | rfl | rfl | hname := name_cases name
  · exact Nat.le_add_right _ _
  · rw [step_dot]
    exact Nat.le_add_right _ _
  · rw [step_dots]
    obtain ⟨-, hparent⟩ | ⟨-, -, hparent⟩ | ⟨-, -, hparent⟩ := here.parent_cases
    · rw [hparent]
      exact Nat.le_add_right _ _
    · rw [hparent, words_append, Text.slashedLength_append]
      exact Nat.le_refl _
    · rw [hparent]
      have hsublist : (words here.dropLast).Sublist (words here) := here.dropLast_sublist.filter _
      exact Nat.le_trans (Text.slashedLength_le_of_sublist hsublist) (Nat.le_add_right _ _)
  · rw [step_proper hname, words_append, words_proper hname, Text.slashedLength_append]
    exact Nat.le_refl _

lemma slashedLength_walk_le (here : StorePath) (names : List Text) :
    Text.slashedLength (words (here.walk names)) ≤
      Text.slashedLength (words here) + Text.slashedLength names := by
  induction names generalizing here with
  | nil => exact Nat.le_refl _
  | cons name names ih =>
    have hwalk := ih (here.step name)
    have hstep := slashedLength_step_le here name
    rw [walk, List.foldl_cons, ← walk, Text.slashedLength]
    omega

lemma walk_append (here : StorePath) (a b : List Text) : here.walk (a ++ b) = (here.walk a).walk b :=
  List.foldl_append ..

lemma walk_slashes (here : StorePath) (count : Nat) :
    here.walk (Text.splitOn '/' (List.replicate count '/')) = here := by
  induction count generalizing here with
  | zero => rfl
  | succ count ih =>
    rw [List.replicate_succ, Text.splitOn, if_pos rfl]
    exact ih here

lemma walk_trim (here : StorePath) (t : Text) (count : Nat) :
    here.walk (Text.splitOn '/' (t ++ List.replicate count '/')) = here.walk (Text.splitOn '/' t) := by
  cases count with
  | zero => rw [List.replicate_zero, List.append_nil]
  | succ count => rw [List.replicate_succ, Text.splitOn_append, walk_append, walk_slashes]

end StorePath

namespace Store

variable {store : Store} {here path : StorePath} {name : Text} {names : List Text}

/-- The path is a directory, and the name is not too long. -/
def Passes (store : Store) (here : StorePath) (name : Text) : Prop :=
  (∃ mode, store.entry? here = some (.directory mode)) ∧ name.byteLength ≤ nameLimit

lemma follow_cons_iff :
    store.follow here (name :: names) = .ok path ↔
      store.Passes here name ∧ store.follow (here.step name) names = .ok path := by
  rw [follow, Passes]
  cases hentry : store.entry? here with
  | none => simp
  | some entry =>
    cases entry with
    | file content mode => simp
    | directory mode =>
      dsimp only
      split
      · next hlimit => simp [Nat.not_le.2 hlimit]
      · next hlimit => simp [Nat.not_lt.1 hlimit]

lemma follow_append (front rest : List Text) :
    store.follow here (front ++ rest) = .ok path ↔
      ∃ middle, store.follow here front = .ok middle ∧ store.follow middle rest = .ok path := by
  induction front generalizing here with
  | nil => simp [follow]
  | cons name front ih =>
    simp only [List.cons_append, follow_cons_iff, ih, and_assoc]
    constructor
    · rintro ⟨hpass, middle, hfront, hrest⟩
      exact ⟨middle, hpass, hfront, hrest⟩
    · rintro ⟨middle, hpass, hfront, hrest⟩
      exact ⟨hpass, middle, hfront, hrest⟩

lemma follow_singleton :
    store.follow here [name] = .ok path ↔ store.Passes here name ∧ here.step name = path := by
  rw [follow_cons_iff, follow, Except.ok.injEq]

lemma eq_walk_of_follow (h : store.follow here names = .ok path) : path = here.walk names := by
  induction names generalizing here with
  | nil =>
    rw [follow] at h
    exact (Except.ok.inj h).symm
  | cons name names ih => exact ih (follow_cons_iff.1 h).2

/-- The names of the path lead to it. -/
def IsReached (store : Store) (start path : StorePath) : Prop :=
  store.follow start path.words = .ok path

lemma IsReached.base {start base : StorePath} (h : store.IsReached start (base ++ [name]))
    (hname : StorePath.IsProper name) : store.IsReached start base ∧ store.Passes base name := by
  rw [IsReached, StorePath.words_append, StorePath.words_proper hname, follow_append] at h
  obtain ⟨middle, hmiddle, hlast⟩ := h
  rw [follow_singleton, StorePath.step_proper hname] at hlast
  obtain rfl := List.append_cancel_right hlast.2
  exact ⟨hmiddle, hlast.1⟩

lemma IsReached.step {start : StorePath} (h : store.IsReached start here) (hplain : here.Plain)
    (hpass : store.Passes here name) : store.IsReached start (here.step name) := by
  have hdown (hnames : StorePath.words [name] = [name]) (hstep : here.step name = here ++ [name]) :
      store.IsReached start (here.step name) := by
    rw [IsReached, hstep, StorePath.words_append, hnames, follow_append]
    exact ⟨here, h, follow_singleton.2 ⟨hpass, hstep⟩⟩
  obtain rfl | rfl | rfl | hname := StorePath.name_cases name
  · exact h
  · rwa [StorePath.step_dot]
  · obtain ⟨-, hparent⟩ | ⟨-, -, hparent⟩ | ⟨habove, hroot, hparent⟩ := here.parent_cases
    · rwa [StorePath.step_dots, hparent]
    · exact hdown rfl (by rw [StorePath.step_dots, hparent])
    · obtain ⟨base, name, rfl, -, hname⟩ := hplain.of_parent habove hroot
      rw [StorePath.step_dots, hparent, List.dropLast_concat]
      exact (h.base hname).1
  · exact hdown (StorePath.words_proper hname) (StorePath.step_proper hname)

lemma isReached_of_follow {start : StorePath} (h : store.IsReached start here) (hplain : here.Plain)
    (hfollow : store.follow here names = .ok path) : store.IsReached start path ∧ path.Plain := by
  induction names generalizing here with
  | nil =>
    rw [follow] at hfollow
    obtain rfl := Except.ok.inj hfollow
    exact ⟨h, hplain⟩
  | cons name names ih =>
    obtain ⟨hpass, hrest⟩ := follow_cons_iff.1 hfollow
    exact ih (h.step hplain hpass) (hplain.step name) hrest

/-- The working directory and the directories above it are directories. -/
def Sound (store : Store) : Prop :=
  ∀ path : StorePath, path.isAbove = true → ∃ mode, store.entry? path = some (.directory mode)

lemma not_file_of_passes (h : store.Passes here name) (content : List UInt8) (mode : Nat) :
    store.entry? here ≠ some (.file content mode) := by
  obtain ⟨⟨mode', hentry⟩, -⟩ := h
  rw [hentry]
  nofun

lemma proper_of_file (hsound : store.Sound) {start : StorePath} (hreached : store.IsReached start here)
    (hplain : here.Plain) (hpass : store.Passes here name) {content : List UInt8} {mode : Nat}
    (hfile : store.entry? (here.step name) = some (.file content mode)) : StorePath.IsProper name := by
  have hhere := not_file_of_passes hpass content mode
  obtain rfl | rfl | rfl | hname := StorePath.name_cases name
  · exact absurd hfile hhere
  · rw [StorePath.step_dot] at hfile
    exact absurd hfile hhere
  · rw [StorePath.step_dots] at hfile
    obtain ⟨-, hparent⟩ | ⟨habove, -, hparent⟩ | ⟨habove, hroot, hparent⟩ := here.parent_cases
    · rw [hparent] at hfile
      exact absurd hfile hhere
    · rw [hparent] at hfile
      have hall : StorePath.isAbove (here ++ [['.', '.']]) = true := by
        rw [StorePath.isAbove, List.all_append, ← StorePath.isAbove, habove]
        rfl
      obtain ⟨mode', hentry⟩ := hsound _ hall
      rw [hentry] at hfile
      cases hfile
    · obtain ⟨base, last, rfl, -, hlast⟩ := hplain.of_parent habove hroot
      rw [hparent, List.dropLast_concat] at hfile
      exact absurd hfile (not_file_of_passes (hreached.base hlast).2 content mode)
  · exact hname

/-- A file name, cut at its last slash. -/
structure Cut (name : Text) (directories : List Text) (last : Text) : Prop where
  pieces : Text.splitOn '/' name = directories ++ [last]
  walk (start : StorePath) :
    start.walk (Text.splitOn '/' (directoryName name)) = start.walk directories
  lastName : last ≠ [] → lastName name = last
  noSlash : last ≠ [] → name.getLast? ≠ some '/'

lemma bne_slash {last : Text} (hslash : '/' ∉ last) : ∀ c ∈ last.reverse, (c != '/') = true := by
  intro c hc
  rw [List.mem_reverse] at hc
  rw [bne_iff_ne]
  rintro rfl
  exact hslash hc

lemma exists_slashes (t : Text) :
    ∃ count, t = (t.reverse.dropWhile (· == '/')).reverse ++ List.replicate count '/' := by
  have hall : ∀ c ∈ t.reverse.takeWhile (· == '/'), c = '/' :=
    fun c hc => by simpa using List.mem_takeWhile_imp hc
  refine ⟨(t.reverse.takeWhile (· == '/')).length, ?_⟩
  rw [← List.reverse_replicate, ← List.eq_replicate_of_mem hall, ← List.reverse_append,
    List.takeWhile_append_dropWhile, List.reverse_reverse]

lemma walk_directoryName (start : StorePath) (front : Text) {last : Text} (hslash : '/' ∉ last) :
    start.walk (Text.splitOn '/' (directoryName (front ++ '/' :: last))) =
      start.walk (Text.splitOn '/' front) := by
  have hfront : ((front ++ '/' :: last).reverse.dropWhile (· != '/')).reverse = front ++ ['/'] := by
    rw [List.reverse_append, List.reverse_cons, List.append_assoc,
      List.dropWhile_append_of_pos (bne_slash hslash)]
    simp
  obtain ⟨count, hcount⟩ := exists_slashes (front ++ ['/'])
  have hwalk : start.walk (Text.splitOn '/' (front ++ ['/'])) = start.walk (Text.splitOn '/' front) :=
    start.walk_trim front 1
  rw [directoryName, hfront, if_neg (by simp)]
  split
  · exact hwalk
  · rw [← hwalk]
    conv_rhs => rw [hcount]
    exact (start.walk_trim _ count).symm

lemma lastName_append (front : Text) {last : Text} (hslash : '/' ∉ last) (hne : last ≠ [])
    (hfront : front = [] ∨ front.getLast? = some '/') : lastName (front ++ last) = last := by
  have hall := bne_slash hslash
  have hdrop : (front ++ last).reverse.dropWhile (· == '/') = last.reverse ++ front.reverse := by
    rw [List.reverse_append]
    obtain ⟨c, rest, hrev⟩ := List.exists_cons_of_ne_nil (List.reverse_ne_nil_iff.2 hne)
    have hc := hall c (by rw [hrev]; exact List.mem_cons_self)
    rw [hrev, List.cons_append, List.dropWhile_cons_of_neg (by simpa using hc)]
  rw [lastName, hdrop, List.takeWhile_append_of_pos hall]
  have htake : front.reverse.takeWhile (· != '/') = [] := by
    obtain rfl | hlast := hfront
    · rfl
    · rw [← List.head?_reverse] at hlast
      cases hrev : front.reverse with
      | nil => rfl
      | cons c rest =>
        rw [hrev] at hlast
        obtain rfl := Option.some.inj hlast
        rfl
  rw [htake, List.append_nil, List.reverse_reverse]

lemma getLast?_ne_slash (front : Text) {last : Text} (hslash : '/' ∉ last) (hne : last ≠ []) :
    (front ++ last).getLast? ≠ some '/' := by
  rw [List.getLast?_append_of_ne_nil front hne]
  intro h
  exact hslash (List.mem_of_getLast? h)

lemma exists_cut (name : Text) : ∃ directories last, Cut name directories last := by
  obtain hslash | ⟨front, last, rfl, hslash⟩ := Text.exists_last '/' name
  · refine ⟨[], name, Text.splitOn_of_notMem hslash, fun start => ?_, fun hne => ?_, fun hne => ?_⟩
    · have hfront : name.reverse.dropWhile (· != '/') = [] :=
        List.dropWhile_eq_nil_iff.2 (bne_slash hslash)
      rw [directoryName, hfront]
      exact start.step_dot
    · exact lastName_append [] hslash hne (.inl rfl)
    · exact getLast?_ne_slash [] hslash hne
  · have hform : front ++ '/' :: last = (front ++ ['/']) ++ last := by simp
    refine ⟨Text.splitOn '/' front, last, ?_, fun start => ?_, fun hne => ?_, fun hne => ?_⟩
    · rw [Text.splitOn_append, Text.splitOn_of_notMem hslash]
    · exact walk_directoryName start front hslash
    · rw [hform]
      exact lastName_append _ hslash hne (.inr (by simp))
    · rw [hform]
      exact getLast?_ne_slash _ hslash hne

lemma null_notMem_of_followNames (h : store.followNames here names = .ok path) :
    '\x00' ∉ Text.join ['/'] names := by
  rw [followNames] at h
  split at h
  · cases h
  · next hnull => simpa using hnull

lemma null_notMem_of_resolve (h : store.resolve name = .ok path) : '\x00' ∉ name := by
  rw [resolve] at h
  split at h
  · cases h
  · simpa only [Text.join_splitOn] using null_notMem_of_followNames h

lemma followNames_words {start : StorePath} (hstart : start.words = []) (hreached : store.IsReached start path)
    {names more : List Text} (hpath : path = start.walk names)
    (hnull : (Text.join ['/'] (names ++ more)).contains '\x00' = false)
    (hlimit : (Text.join ['/'] (names ++ more)).byteLength ≤ pathLimit) :
    store.followNames start path.words = .ok path := by
  have hwords : ∀ word ∈ path.words, word ∈ names := by
    intro word hword
    rw [hpath] at hword
    obtain hmem | hmem := start.words_walk_subset names word hword
    · rw [hstart] at hmem
      cases hmem
    · exact hmem
  have hfree : (Text.join ['/'] path.words).contains '\x00' = false := by
    rw [Bool.eq_false_iff] at hnull ⊢
    intro hcontains
    rw [List.contains_iff_mem, Text.mem_join (by decide)] at hcontains
    obtain ⟨word, hword, hmem⟩ := hcontains
    refine hnull (List.contains_iff_mem.2 ((Text.mem_join (by decide) _).2 ⟨word, ?_, hmem⟩))
    exact List.mem_append_left more (hwords word hword)
  have hshort : (Text.join ['/'] path.words).byteLength ≤ pathLimit := by
    have hwalk := start.slashedLength_walk_le names
    rw [hstart, ← hpath, Text.slashedLength, Nat.zero_add] at hwalk
    rw [Text.byteLength_join, Text.slashedLength_append] at hlimit
    rw [Text.byteLength_join]
    omega
  rw [followNames, if_neg (by rw [hfree]; nofun), if_neg (Nat.not_lt.2 hshort)]
  exact hreached

/-- A name that leads to a file leads there from the directory in which a file with this name is made,
and by a name that a file can be moved to. -/
lemma file_directory (hsound : store.Sound) (h : store.resolve name = .ok path) {content : List UInt8}
    {mode : Nat} (hfile : store.entry? path = some (.file content mode)) :
    (∃ directory, store.directoryOf name = .ok directory) ∧
      [[], ['.'], ['.', '.']].contains (lastName name) = false ∧ name.getLast? ≠ some '/' := by
  obtain ⟨directories, last, hcut⟩ := exists_cut name
  rw [resolve, followNames] at h
  split at h
  · cases h
  split at h
  · cases h
  next hnull =>
  split at h
  · cases h
  next hlimit =>
  rw [hcut.pieces, follow_append] at h
  obtain ⟨directory, hdirectory, hlast⟩ := h
  obtain ⟨hpass, rfl⟩ := follow_singleton.1 hlast
  have hstart : store.IsReached (.origin name) (.origin name) := by
    rw [IsReached, StorePath.words_origin, follow]
  obtain ⟨hreached, hplain⟩ := isReached_of_follow hstart (StorePath.plain_origin name) hdirectory
  have hproper := proper_of_file hsound hreached hplain hpass hfile
  refine ⟨⟨directory, ?_⟩, ?_, hcut.noSlash hproper.1⟩
  · have hwalk := eq_walk_of_follow hdirectory
    have hnames := followNames_words (StorePath.words_origin name) hreached hwalk
      (by rw [← hcut.pieces]; simpa using hnull) (by rw [← hcut.pieces]; exact Nat.not_lt.1 hlimit)
    obtain ⟨⟨mode', hentry⟩, -⟩ := hpass
    rw [directoryOf, hcut.walk, ← hwalk]
    change (store.followNames (.origin name) directory.words >>= _) = _
    rw [hnames]
    dsimp only [bind, Except.bind]
    rw [hentry]
    rfl
  · rw [hcut.lastName hproper.1]
    simp [hproper.1, hproper.2.1, hproper.2.2]

end Store

end DpLang
