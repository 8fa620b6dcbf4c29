import DpLang.Command.Run
import DpLang.Proofs.Plan
import DpLang.Proofs.Replacement

/-!
# Safety of files

The command changes no file but the one it is asked to write, and that one only if everything has
succeeded. Whatever the diff tool answers and whatever the system refuses, a command that fails leaves
all files with their contents and permissions. It leaves a temporary file only where the system
refuses to remove it.
-/

namespace DpLang

namespace Command

section Answers

variable {α β : Type} {p : Command α} {answer : Store → Except CommandError α}

/-- How a step ends, and the session that it leaves. -/
def ending (p : Command α) (s : Session) : Except CommandError α × Session := (ExceptT.run p).run s

/-- The step leaves the files alone, and it ends as the answer says for the files that it finds. -/
def Answers (p : Command α) (answer : Store → Except CommandError α) : Prop :=
  ∀ s : Session, (ending p s).1 = answer s.store ∧ (ending p s).2.store = s.store

lemma Answers.ensures (h : Answers p answer) {s : Session} {Q : α → Session → Prop}
    {E : CommandError → Session → Prop} (hok : ∀ a t, t.store = s.store → answer s.store = .ok a → Q a t)
    (herror : ∀ e t, t.store = s.store → answer s.store = .error e → E e t) : Ensures p s Q E := by
  obtain ⟨hanswer, hstore⟩ := h s
  rw [Ensures]
  rcases hrun : (ExceptT.run p).run s with ⟨_ | a, t⟩ <;> rw [ending, hrun] at hanswer hstore
  · exact herror _ t hstore hanswer.symm
  · exact hok a t hstore hanswer.symm

lemma Answers.ensures_ok {a : α} (h : Answers p fun _ => .ok a) {s : Session} {Q : α → Session → Prop}
    {E : CommandError → Session → Prop} (hok : ∀ t, t.store = s.store → Q a t) : Ensures p s Q E := by
  refine h.ensures (fun b t hstore hb => ?_) fun e t _ he => ?_
  · cases hb
    exact hok t hstore
  · cases he

lemma Answers.bind {f : α → Command β} {next : α → Store → Except CommandError β} (h : Answers p answer)
    (hf : ∀ a, Answers (f a) (next a)) :
    Answers (p >>= f) fun store => answer store >>= fun a => next a store := by
  intro s
  obtain ⟨hanswer, hstore⟩ := h s
  rw [ending, run_bind]
  rcases hrun : (ExceptT.run p).run s with ⟨_ | a, t⟩ <;> rw [ending, hrun] at hanswer hstore
  · dsimp only at hanswer hstore ⊢
    rw [← hanswer]
    exact ⟨rfl, hstore⟩
  · obtain ⟨hnext, hkept⟩ := hf a t
    dsimp only at hanswer hstore ⊢
    rw [hstore] at hnext hkept
    rw [← hanswer]
    exact ⟨hnext, hkept⟩

lemma answers_pure (a : α) : Answers (pure a) fun _ => .ok a := fun _ => ⟨rfl, rfl⟩

lemma answers_throw (e : CommandError) : Answers (throw e : Command α) fun _ => .error e :=
  fun _ => ⟨rfl, rfl⟩

lemma answers_print (bytes : List UInt8) : Answers (print bytes) fun _ => .ok () := fun _ => ⟨rfl, rfl⟩

lemma answers_printError (bytes : List UInt8) : Answers (printError bytes) fun _ => .ok () :=
  fun _ => ⟨rfl, rfl⟩

lemma answers_tell (verbose : Bool) (event : Event) : Answers (tell verbose event) fun _ => .ok () := by
  cases verbose with
  | false => exact answers_pure ()
  | true => exact answers_printError _

lemma answers_orFormatError (result : Except FormatError α) :
    Answers (orFormatError result) fun _ => result.mapError .format := by
  cases result with
  | ok a => exact answers_pure a
  | error e => exact answers_throw (.format e)

lemma answers_orStoreError (name : Text) (result : Except StoreError α) :
    Answers (orStoreError name result) fun _ => result.mapError (.store · name) := by
  cases result with
  | ok a => exact answers_pure a
  | error e => exact answers_throw (.store e name)

lemma ensures_storeError {name : Text} {e : StoreError} {s : Session} {Q : α → Session → Prop}
    {E : CommandError → Session → Prop} (h : ∀ t, t.store = s.store → E (.store e name) t) :
    Ensures (orStoreError name (.error e : Except StoreError α)) s Q E := by
  refine (answers_orStoreError name (.error e)).ensures (fun _ _ _ hok => ?_) fun _ t hstore he => ?_
  · cases hok
  · cases he
    exact h t hstore

lemma answers_forM {γ : Type} (items : List γ) {f : γ → Command Unit}
    (h : ∀ item, Answers (f item) fun _ => .ok ()) : Answers (items.forM f) fun _ => .ok () := by
  induction items with
  | nil => exact answers_pure ()
  | cons item items ih => exact (h item).bind fun _ => ih

lemma Answers.after {q : Command Unit} (hq : Answers q fun _ => .ok ()) (h : Answers p answer) :
    Answers (q >>= fun _ => p) answer :=
  hq.bind fun _ => h

lemma Answers.handOn (h : Answers p answer) {q : α → Command α} (hq : ∀ a, Answers (q a) fun _ => .ok a) :
    Answers (p >>= q) answer := by
  have hbind := h.bind hq
  have hsame : (fun store => answer store >>= fun a => (.ok a : Except CommandError α)) = answer := by
    funext store
    exact bind_pure (answer store)
  rwa [hsame] at hbind

lemma answers_layOut (verbose : Bool) (nodes : List Node) :
    Answers (layOut verbose nodes) fun _ => (writeNodes nodes).mapError .format := by
  have htold : Answers (orFormatError (writeNodes nodes) >>= fun text =>
      tell verbose (.laidOut nodes.length text.byteLength) >>= fun _ => pure text)
      fun _ => (writeNodes nodes).mapError .format :=
    (answers_orFormatError _).handOn fun text => (answers_tell _ _).after (answers_pure text)
  unfold layOut
  split
  · split
    · next imports _ =>
      refine (answers_forM _ fun item => ?_).after ((answers_tell _ _).after htold)
      exact answers_tell _ _
    · exact htold
  · exact (answers_orFormatError _).handOn fun text => answers_pure text

lemma mapError_bind (x : Except FormatError α) (f : α → Except FormatError β) :
    (x >>= f).mapError CommandError.format =
      x.mapError .format >>= fun a => (f a).mapError .format := by
  cases x <;> rfl

lemma answers_formatSource (verbose : Bool) (path : Text) (source : Source) :
    Answers (formatSource verbose path source) fun _ => (format path source).mapError .format := by
  rw [format, mapError_bind]
  refine (answers_orFormatError _).bind fun tokens => (answers_tell _ _).after ?_
  rw [mapError_bind]
  exact (answers_orFormatError _).bind fun nodes => (answers_tell _ _).after (answers_layOut _ _)

lemma answers_readFile (refusals : Refusals) (file : Text) :
    Answers (readFile refusals file) fun store =>
      (refusals.check .read >>= fun _ => store.read file).mapError (.store · file) := by
  intro s
  rw [readFile, ending, run_bind]
  cases hcheck : refusals.check .read with
  | error e => exact ⟨rfl, rfl⟩
  | ok _ => exact answers_orStoreError file (s.store.read file) s

lemma answers_runDiff (programs : Programs) (verbose : Bool) (command file : Text) (content : List UInt8) :
    Answers (runDiff programs verbose command file content) fun store =>
      if (command :: diffArguments file).any (·.contains '\x00') then .error (.store .nullInName command)
      else ((store.findProgram programs command).mapError (.store · command)).map fun program =>
        (program (diffArguments file) content).status := by
  have hstart (store : Store) : Answers (orStoreError command (store.findProgram programs command) >>=
      fun program => print (program (diffArguments file) content).out >>= fun _ =>
        printError (program (diffArguments file) content).err >>= fun _ =>
          pure (program (diffArguments file) content).status) fun _ =>
      ((store.findProgram programs command).mapError (.store · command)).map fun program =>
        (program (diffArguments file) content).status := by
    cases store.findProgram programs command with
    | error e => exact fun s => ⟨rfl, rfl⟩
    | ok program =>
      exact (answers_print _).after ((answers_printError _).after (answers_pure _))
  rw [runDiff]
  refine (answers_tell _ _).after ?_
  by_cases hnull : (command :: diffArguments file).any (·.contains '\x00') = true
  · simp only [if_pos hnull]
    exact fun s => ⟨rfl, rfl⟩
  · simp only [if_neg hnull]
    intro s
    exact hstart s.store s

end Answers

section Delivery

variable {programs : Programs} {refusals : Refusals} {options : Options} {store : Store}
  {old : List UInt8} {text : Text}

/-- The diff tool is there and finds at most differences, if it is asked for. -/
def Compares (programs : Programs) (options : Options) (store : Store) (content : List UInt8) : Prop :=
  options.showDiff = true → ∃ program, store.findProgram programs options.diffCommand = .ok program ∧
    (program (diffArguments options.file) content).status ≤ 1

/-- The file is found, and formatting its content gives a text. -/
structure Formats (refusals : Refusals) (options : Options) (store : Store) (old : List UInt8)
    (text : Text) : Prop where
  allowed : refusals.check .read = .ok ()
  read : store.read options.file = .ok old
  formatted : format options.file (.bytes old) = .ok text

/-- Nothing stands in the way of the command: the file can be formatted, the diff tool is content, and
the system lets the file be replaced, as far as the options ask for it. -/
structure Delivers (programs : Programs) (refusals : Refusals) (options : Options) (store : Store)
    (old : List UInt8) (text : Text) : Prop extends Formats refusals options store old text where
  compared : Compares programs options store (Text.encode text)
  replaced : options.write = true →
    ∀ step ∈ [FileStep.create, .fill, .setMode, .move], refusals.check step = .ok ()

/-- The file can be formatted and the diff tool is content, but the temporary file that has been made can
neither be put in place nor be removed. -/
structure Strands (programs : Programs) (refusals : Refusals) (options : Options) (store : Store)
    (old : List UInt8) (text : Text) : Prop extends Formats refusals options store old text where
  compared : Compares programs options store (Text.encode text)
  asked : options.write = true
  made : refusals.check .create = .ok ()
  stopped : ∃ step ∈ [FileStep.fill, .setMode, .move], refusals.check step ≠ .ok ()
  kept : refusals.check .remove ≠ .ok ()

lemma null_notMem_of_findProgram {command : Text} {program : Program}
    (h : store.findProgram programs command = .ok program) : '\x00' ∉ command := by
  rw [Store.findProgram] at h
  split at h
  · cases hpath : store.resolve command with
    | ok path => exact Store.null_notMem_of_resolve hpath
    | error e =>
      rw [hpath] at h
      cases h
  · cases hpath : store.followNames searchDirectory [command] with
    | ok path => simpa [Text.join] using Store.null_notMem_of_followNames hpath
    | error e =>
      rw [hpath] at h
      cases h

lemma exists_file_of_read {name : Text} (h : store.read name = .ok old) :
    ∃ path mode, store.resolve name = .ok path ∧ store.entry? path = some (.file old mode) := by
  rw [Store.read] at h
  cases hfind : store.find name with
  | error e =>
    rw [hfind] at h
    cases h
  | ok entry =>
    rw [hfind] at h
    cases entry with
    | directory mode => cases h
    | file content mode =>
      cases h
      obtain ⟨path, hpath, hentry⟩ := Store.find_ok_iff.1 hfind
      exact ⟨path, mode, hpath, hentry⟩

lemma any_null (command : Text) {file : Text} (hfile : '\x00' ∉ file) :
    (command :: diffArguments file).any (·.contains '\x00') = command.contains '\x00' := by
  have hcontains : file.contains '\x00' = false := by simpa using hfile
  have hflag : ("-u".toList : Text).contains '\x00' = false := rfl
  have hinput : ("/dev/stdin".toList : Text).contains '\x00' = false := rfl
  rw [diffArguments, List.any_cons, List.any_cons, List.any_cons, List.any_cons, hcontains, hflag, hinput]
  simp

lemma display_ensures {s : Session} {content : List UInt8} (hfile : '\x00' ∉ options.file) :
    Ensures (display programs options content) s
      (fun _ t => t.store = s.store ∧ Compares programs options s.store content)
      (fun _ t => t.store = s.store ∧ ¬ Compares programs options s.store content) := by
  rw [display]
  by_cases hdiff : options.showDiff = true
  · rw [if_pos hdiff, ensures_bind]
    have hrun := answers_runDiff programs options.verbose options.diffCommand options.file content
    simp only [any_null _ hfile] at hrun
    refine hrun.ensures ?_ ?_
    · intro status t hstore hstatus
      split at hstatus
      · cases hstatus
      cases hprogram : s.store.findProgram programs options.diffCommand with
      | error e =>
        rw [hprogram] at hstatus
        cases hstatus
      | ok program =>
        rw [hprogram] at hstatus
        cases hstatus
        by_cases hlarge : 1 < (program (diffArguments options.file) content).status
        · rw [if_pos hlarge]
          refine ⟨hstore, fun hcompares => ?_⟩
          obtain ⟨found, hfound, hstatus⟩ := hcompares hdiff
          rw [hprogram] at hfound
          cases hfound
          omega
        · rw [if_neg hlarge]
          exact ⟨hstore, fun _ => ⟨program, hprogram, by omega⟩⟩
    · intro e t hstore herror
      refine ⟨hstore, fun hcompares => ?_⟩
      obtain ⟨program, hprogram, -⟩ := hcompares hdiff
      have hcommand := null_notMem_of_findProgram hprogram
      rw [if_neg (by simpa using hcommand), hprogram] at herror
      cases herror
  · rw [if_neg hdiff]
    have hcompares : Compares programs options s.store content := fun h => absurd h hdiff
    by_cases hwrite : (!options.write) = true
    · rw [if_pos hwrite]
      exact (answers_print _).ensures_ok fun t hstore => ⟨hstore, hcompares⟩
    · rw [if_neg hwrite]
      exact ⟨rfl, hcompares⟩

/-- Replacing the file that has been read changes its content, or nothing, or it leaves a temporary file
that cannot be removed. -/
lemma replaceFile_ensures {s : Session} {path : StorePath} {mode : Nat} {file : Text} {content : List UInt8}
    {verbose : Bool} (hpath : s.store.resolve file = .ok path)
    (hold : s.store.entry? path = some (.file old mode)) :
    Ensures (replaceFile refusals verbose file content) s
      (fun _ t => t.store = s.store.insert path (.file content mode) ∧
        ∀ step ∈ [FileStep.create, .fill, .setMode, .move], refusals.check step = .ok ())
      (fun _ t => t.store = s.store ∧ (s.store.Sound → refusals.check .create ≠ .ok () ∨
          refusals.check .remove = .ok () ∧
            ∃ step ∈ [FileStep.fill, .setMode, .move], refusals.check step ≠ .ok ()) ∨
        Store.LeavesTemporary s.store t.store file ∧ refusals.check .remove ≠ .ok () ∧
          refusals.check .create = .ok () ∧ (s.store.Sound →
            ∃ step ∈ [FileStep.fill, .setMode, .move], refusals.check step ≠ .ok ())) := by
  have hends := Store.replace_ends s.store refusals file content
  rw [replaceFile]
  simp only [ensures_bind, ensures_get, ensures_modify]
  generalize s.store.replace file content refusals = result at hends ⊢
  obtain ⟨outcome, after⟩ := result
  dsimp only at hends ⊢
  cases hends with
  | notMade h =>
    refine ensures_storeError fun t hstore => .inl ⟨hstore, fun hsound => .inl ?_⟩
    simp [h.refused_create hsound hpath hold]
  | discarded made h hremove =>
    refine ensures_storeError fun t hstore => .inl ⟨hstore, fun hsound => .inr ⟨hremove, ?_⟩⟩
    obtain ⟨step, hstep, hrefused⟩ := h.exists_refused hsound hpath hold made.free
    exact ⟨step, hstep, by simp [hrefused]⟩
  | stranded made h hremove staged =>
    refine ensures_storeError fun t hstore => .inr ⟨?_, by simp [hremove], made.create, fun hsound => ?_⟩
    · rw [hstore]
      exact staged.leavesTemporary made
    · obtain ⟨step, hstep, hrefused⟩ := h.exists_refused hsound hpath hold made.free
      exact ⟨step, hstep, by simp [hrefused]⟩
  | replaced made prepared hmove named renamed =>
    obtain ⟨hafter, hallowed⟩ :=
      Store.replace_file hpath hold (.replaced made prepared hmove named renamed)
    refine (answers_pure ()).ensures_ok fun t hstore => ?_
    refine (answers_tell _ _).ensures_ok fun t' hstore' => ⟨?_, hallowed⟩
    rw [hstore', hstore]
    exact hafter

/-- The file has its new content and its old permissions, and all else is as before. -/
def Rewrites (before after : Store) (file : Text) (old : List UInt8) (text : Text) : Prop :=
  ∃ path mode, before.resolve file = .ok path ∧ before.entry? path = some (.file old mode) ∧
    after.find file = .ok (.file (Text.encode text) mode) ∧
    ∀ other, other ≠ path → after.entry? other = before.entry? other

lemma Rewrites.not_leavesTemporary {after : Store} {file : Text} (h : Rewrites store after file old text) :
    ¬ Store.LeavesTemporary store after file := by
  obtain ⟨path, mode, -, hold, -, hrest⟩ := h
  rintro ⟨directory, n, content, mode', -, hfree, hfile, -⟩
  have hne : directory ++ [Store.temporaryName n] ≠ path := by
    rintro rfl
    rw [hfree] at hold
    cases hold
  rw [hrest _ hne, hfree] at hfile
  cases hfile

lemma readFile_ensures (s : Session) :
    Ensures (readFile refusals options.file) s
      (fun old t => t.store = s.store ∧ refusals.check .read = .ok () ∧ s.store.read options.file = .ok old)
      (fun _ t => t.store = s.store ∧ ∀ old text, ¬ Formats refusals options s.store old text) := by
  refine (answers_readFile refusals options.file).ensures (fun old t hstore hread => ?_)
    fun e t hstore herror => ⟨hstore, fun old text h => ?_⟩
  · cases hcheck : refusals.check .read with
    | error e =>
      rw [hcheck] at hread
      cases hread
    | ok _ =>
      cases hold : s.store.read options.file with
      | error e =>
        rw [hcheck, hold] at hread
        cases hread
      | ok content =>
        rw [hcheck, hold] at hread
        cases hread
        exact ⟨hstore, rfl, rfl⟩
  · rw [h.allowed, h.read] at herror
    cases herror

lemma formatSource_ensures {s : Session} (hallowed : refusals.check .read = .ok ())
    (hread : store.read options.file = .ok old) (hstore : s.store = store) :
    Ensures (formatSource options.verbose options.file (.bytes old)) s
      (fun text t => t.store = store ∧ Formats refusals options store old text)
      (fun _ t => t.store = store ∧ ∀ old text, ¬ Formats refusals options store old text) := by
  refine (answers_formatSource options.verbose options.file (.bytes old)).ensures
    (fun text t hkept htext => ⟨hkept.trans hstore, hallowed, hread, ?_⟩)
    fun e t hkept herror => ⟨hkept.trans hstore, fun other text h => ?_⟩
  · cases hformat : format options.file (.bytes old) with
    | error e =>
      rw [hformat] at htext
      cases htext
    | ok result =>
      rw [hformat] at htext
      cases htext
      rfl
  · have hsame := h.read
    rw [hread] at hsame
    cases hsame
    rw [h.formatted] at herror
    cases herror

lemma Formats.unique {old' : List UInt8} {text' : Text} (h : Formats refusals options store old text)
    (h' : Formats refusals options store old' text') : old' = old ∧ text' = text := by
  have hread := h'.read
  rw [h.read] at hread
  cases hread
  have hformatted := h'.formatted
  rw [h.formatted] at hformatted
  cases hformatted
  exact ⟨rfl, rfl⟩

lemma Delivers.not_strands {old' : List UInt8} {text' : Text}
    (h : Delivers programs refusals options store old text) :
    ¬ Strands programs refusals options store old' text' := by
  intro hstrands
  obtain ⟨step, hstep, hrefused⟩ := hstrands.stopped
  exact hrefused (h.replaced hstrands.asked step (List.mem_cons_of_mem _ hstep))

/-- How the command fails: nothing has changed, or a temporary file is left. -/
def Fails (programs : Programs) (refusals : Refusals) (options : Options) (before after : Store) : Prop :=
  after = before ∧ (before.Sound → ∀ old text, ¬ Delivers programs refusals options before old text ∧
    ¬ Strands programs refusals options before old text) ∨
  options.write = true ∧ refusals.check .remove ≠ .ok () ∧
    Store.LeavesTemporary before after options.file ∧
    (before.Sound → ∃ old text, Strands programs refusals options before old text)

lemma fails_of_not_formats {after : Store} (hstore : after = store)
    (h : ∀ old text, ¬ Formats refusals options store old text) :
    Fails programs refusals options store after :=
  .inl ⟨hstore, fun _ old text =>
    ⟨fun hdelivers => h old text hdelivers.toFormats, fun hstrands => h old text hstrands.toFormats⟩⟩

lemma fails_of_not_compares {after : Store} (hstore : after = store)
    (hformats : Formats refusals options store old text)
    (h : ¬ Compares programs options store (Text.encode text)) :
    Fails programs refusals options store after := by
  refine .inl ⟨hstore, fun _ old' text' => ⟨fun hdelivers => h ?_, fun hstrands => h ?_⟩⟩
  · obtain ⟨-, rfl⟩ := hformats.unique hdelivers.toFormats
    exact hdelivers.compared
  · obtain ⟨-, rfl⟩ := hformats.unique hstrands.toFormats
    exact hstrands.compared

lemma writing_ensures {s : Session} (hformats : Formats refusals options s.store old text)
    (hcompares : Compares programs options s.store (Text.encode text)) (hwrite : options.write = true) :
    Ensures (replaceFile refusals options.verbose options.file (Text.encode text)) s
      (fun _ t => Delivers programs refusals options s.store old text ∧
        Rewrites s.store t.store options.file old text)
      (fun _ t => Fails programs refusals options s.store t.store) := by
  obtain ⟨path, mode, hpath, hold⟩ := exists_file_of_read hformats.read
  refine (replaceFile_ensures hpath hold).mono ?_ ?_
  · rintro _ t ⟨hafter, hsteps⟩
    refine ⟨⟨hformats, hcompares, fun _ => hsteps⟩, path, mode, hpath, hold, ?_⟩
    rw [hafter]
    exact ⟨Store.find_insert_file hpath hold, fun other hne => Store.entry?_insert_of_ne hne⟩
  · rintro e t (⟨hafter, hwhy⟩ | ⟨hleaves, hremove, hcreate, hstopped⟩)
    · refine .inl ⟨hafter, fun hsound old' text' => ⟨fun hdelivers => ?_, fun hstrands => ?_⟩⟩
      · obtain hcreate | ⟨-, step, hstep, hrefused⟩ := hwhy hsound
        · exact hcreate (hdelivers.replaced hwrite _ (by simp))
        · exact hrefused (hdelivers.replaced hwrite step (List.mem_cons_of_mem _ hstep))
      · obtain hcreate | ⟨hremove, -⟩ := hwhy hsound
        · exact hcreate hstrands.made
        · exact hstrands.kept hremove
    · refine .inr ⟨hwrite, hremove, hleaves, fun hsound => ?_⟩
      exact ⟨old, text, hformats, hcompares, hwrite, hcreate, hstopped hsound, hremove⟩

lemma formatFile_ensures (programs : Programs) (refusals : Refusals) (options : Options) (s : Session) :
    Ensures (formatFile programs refusals options) s
      (fun _ t => ∃ old text, Delivers programs refusals options s.store old text ∧
        if options.write then Rewrites s.store t.store options.file old text else t.store = s.store)
      (fun _ t => Fails programs refusals options s.store t.store) := by
  simp only [formatFile, ensures_bind]
  refine (readFile_ensures s).mono ?_ fun e t h => fails_of_not_formats h.1 h.2
  rintro old t ⟨hstore, hallowed, hread⟩
  refine (formatSource_ensures hallowed hread hstore).mono ?_ fun e t h => fails_of_not_formats h.1 h.2
  rintro text t ⟨hstore, hformats⟩
  refine (answers_tell _ _).ensures_ok fun t' hstore' => ?_
  obtain ⟨path, mode, hpath, -⟩ := exists_file_of_read hread
  rw [hstore] at hstore'
  rw [← hstore'] at hformats ⊢
  refine (display_ensures (Store.null_notMem_of_resolve hpath)).mono ?_
    fun e t h => fails_of_not_compares h.1 hformats h.2
  rintro _ t ⟨hkept, hcompares⟩
  rw [← hkept] at hformats hcompares ⊢
  by_cases hwrite : options.write = true
  · simp only [if_pos hwrite]
    exact (writing_ensures hformats hcompares hwrite).mono (fun _ t' h => ⟨old, text, h⟩) fun _ _ h => h
  · simp only [if_neg hwrite, ensures_pure]
    exact ⟨old, text, ⟨hformats, hcompares, fun h => absurd h hwrite⟩, trivial⟩

/-- The command changes no file unless it is asked to write and succeeds, and then only the file that it
names. It succeeds just when nothing stands in its way. If it fails, all files are as before, and a
temporary file is left just when the system refuses to put it in place and to remove it. -/
theorem formatFile_safe (programs : Programs) (refusals : Refusals) (options : Options) (before : Session) :
    let outcome := (ending (formatFile programs refusals options) before).1
    let after := (ending (formatFile programs refusals options) before).2.store
    (options.write = false → after = before.store) ∧
    ((∃ error, outcome = .error error) → after = before.store ∨
      refusals.check .remove ≠ .ok () ∧ Store.LeavesTemporary before.store after options.file) ∧
    (outcome = .ok () ∧ options.write = true →
      ∃ old text, before.store.read options.file = .ok old ∧
        format options.file (.bytes old) = .ok text ∧
        Rewrites before.store after options.file old text) ∧
    (before.store.Sound →
      (outcome = .ok () ↔ ∃ old text, Delivers programs refusals options before.store old text) ∧
      (Store.LeavesTemporary before.store after options.file ↔
        ∃ old text, Strands programs refusals options before.store old text)) := by
  intro outcome after
  have hensures := formatFile_ensures programs refusals options before
  rw [Ensures] at hensures
  rcases hrun : (ExceptT.run (formatFile programs refusals options)).run before with ⟨e | _, session⟩
  · rw [hrun] at hensures
    have houtcome : outcome = .error e := congrArg Prod.fst hrun
    have hafter : after = session.store := congrArg (fun result => result.2.store) hrun
    rw [houtcome, hafter]
    obtain ⟨hstore, hnot⟩ | ⟨hwrite, hremove, hleaves, hstrands⟩ := hensures
    · refine ⟨fun _ => hstore, fun _ => .inl hstore, fun h => by simp at h, fun hsound => ⟨?_, ?_⟩⟩
      · refine iff_of_false (by simp) ?_
        rintro ⟨old, text, hdelivers⟩
        exact (hnot hsound old text).1 hdelivers
      · rw [hstore]
        refine iff_of_false Store.not_leavesTemporary_self ?_
        rintro ⟨old, text, hstrands⟩
        exact (hnot hsound old text).2 hstrands
    · refine ⟨fun hw => ?_, fun _ => .inr ⟨hremove, hleaves⟩, fun h => by simp at h, fun hsound => ⟨?_, ?_⟩⟩
      · rw [hwrite] at hw
        cases hw
      · obtain ⟨_, _, hstrands⟩ := hstrands hsound
        refine iff_of_false (by simp) ?_
        rintro ⟨old, text, hdelivers⟩
        exact hdelivers.not_strands hstrands
      · exact iff_of_true hleaves (hstrands hsound)
  · rw [hrun] at hensures
    have houtcome : outcome = .ok () := congrArg Prod.fst hrun
    have hafter : after = session.store := congrArg (fun result => result.2.store) hrun
    obtain ⟨old, text, hdelivers, hstore⟩ := hensures
    rw [houtcome, hafter]
    refine ⟨fun hwrite => ?_, fun h => by simp at h, fun h => ?_, fun hsound => ⟨?_, ?_⟩⟩
    · rwa [if_neg (by simp [hwrite])] at hstore
    · rw [if_pos h.2] at hstore
      exact ⟨old, text, hdelivers.read, hdelivers.formatted, hstore⟩
    · exact iff_of_true rfl ⟨old, text, hdelivers⟩
    · refine iff_of_false (fun hleaves => ?_) ?_
      · split at hstore
        · exact hstore.not_leavesTemporary hleaves
        · rw [hstore] at hleaves
          exact Store.not_leavesTemporary_self hleaves
      · rintro ⟨old', text', hstrands⟩
        exact hdelivers.not_strands hstrands

lemma error_of_toOption {ε α : Type} {x : Except ε α} (h : x.toOption = none) : ∃ e, x = .error e := by
  cases x with
  | error e => exact ⟨e, rfl⟩
  | ok b => cases h

/-- A file with permissions of its own is rewritten beside another one. -/
theorem formatFile_safe_rewritten :
    let store : Store := ⟨[(["a.dp"], .file (Text.encode "x=1\n") 0o640), (["b"], .file [7] 0o600)]⟩
    let options : Options := { write := true, diffCommand := "diff", file := "a.dp" }
    let result := ending (formatFile (fun _ => none) [] options) { store }
    result.1 = .ok () ∧
      result.2.store = ⟨[(["a.dp"], .file (Text.encode "x = 1\n") 0o640), (["b"], .file [7] 0o600)]⟩ ∧
      ∃ old text, store.read options.file = .ok old ∧ format options.file (.bytes old) = .ok text ∧
        Rewrites store result.2.store options.file old text := by
  intro store options result
  have hok : result.1.toOption = some () := by decide +kernel
  have hafter : result.2.store =
      ⟨[(["a.dp"], .file (Text.encode "x = 1\n") 0o640), (["b"], .file [7] 0o600)]⟩ := by decide +kernel
  have hwrite : options.write = true := rfl
  -- From here on the store and the options are any: nothing more is to be evaluated.
  clear_value store options
  obtain ⟨-, -, hwritten, -⟩ := formatFile_safe (fun _ => none) [] options { store }
  exact ⟨ok_of_toOption hok, hafter, hwritten ⟨ok_of_toOption hok, hwrite⟩⟩

/-- Where the system refuses to move the temporary file and to remove it, it stays. -/
theorem formatFile_leaves_temporary :
    let store : Store := ⟨[(["a.dp"], .file (Text.encode "x=1\n") 0o644)]⟩
    let refusals : Refusals := [(.move, .permissionDenied), (.remove, .permissionDenied)]
    let options : Options := { write := true, diffCommand := "diff", file := "a.dp" }
    let result := ending (formatFile (fun _ => none) refusals options) { store }
    (∃ error, result.1 = .error error) ∧ store.entry? [".0.dpfmt"] = none ∧
      result.2.store.entry? [".0.dpfmt"] = some (.file (Text.encode "x = 1\n") 0o644) := by
  intro store refusals options result
  exact ⟨error_of_toOption (by decide +kernel), by decide +kernel, by decide +kernel⟩

end Delivery

end Command

end DpLang
