import DpLang.Proofs.StorePaths
import Mathlib.Data.List.Nodup
import Mathlib.Data.List.Perm.Subperm
import Mathlib.Tactic.Lemma

/-!
# Replacing a file

A replacement that fails leaves the store as it was, whatever the system refuses: the temporary file
stands at a path that was free, and it is gone afterwards, unless the system refuses to remove it. A
replacement that succeeds changes one entry.
-/

namespace DpLang

section Ensures

variable {ε σ α β : Type} {s : σ} {Q : α → σ → Prop} {E : ε → σ → Prop}

/-- A program that starts in the state `s` ends with a result and a state that satisfy `Q`, or it
fails with an error and a state that satisfy `E`. -/
def Ensures (p : ExceptT ε (StateM σ) α) (s : σ) (Q : α → σ → Prop) (E : ε → σ → Prop) : Prop :=
  match p.run.run s with
  | (.ok a, t) => Q a t
  | (.error e, t) => E e t

lemma run_bind (p : ExceptT ε (StateM σ) α) (f : α → ExceptT ε (StateM σ) β) (s : σ) :
    (p >>= f).run.run s =
      match p.run.run s with
      | (.ok a, t) => (f a).run.run t
      | (.error e, t) => (.error e, t) := by
  unfold StateT.run ExceptT.run
  simp only [bind, ExceptT.bind, ExceptT.mk, StateT.bind]
  rcases p s with ⟨_ | a, t⟩ <;> rfl

@[simp] lemma ensures_bind {Q : β → σ → Prop} (p : ExceptT ε (StateM σ) α)
    (f : α → ExceptT ε (StateM σ) β) :
    Ensures (p >>= f) s Q E ↔ Ensures p s (fun a t => Ensures (f a) t Q E) E := by
  rw [Ensures, Ensures, run_bind]
  rcases p.run.run s with ⟨_ | a, t⟩ <;> rfl

@[simp] lemma ensures_pure (a : α) : Ensures (pure a : ExceptT ε (StateM σ) α) s Q E ↔ Q a s := Iff.rfl

@[simp] lemma ensures_get {Q : σ → σ → Prop} :
    Ensures (get : ExceptT ε (StateM σ) σ) s Q E ↔ Q s s := Iff.rfl

@[simp] lemma ensures_set {Q : PUnit → σ → Prop} (t : σ) :
    Ensures (set t : ExceptT ε (StateM σ) PUnit) s Q E ↔ Q ⟨⟩ t := Iff.rfl

@[simp] lemma ensures_modify {Q : PUnit → σ → Prop} (f : σ → σ) :
    Ensures (modify f : ExceptT ε (StateM σ) PUnit) s Q E ↔ Q ⟨⟩ (f s) := Iff.rfl

@[simp] lemma ensures_lift (x : Except ε α) :
    Ensures (liftM x : ExceptT ε (StateM σ) α) s Q E ↔
      (∀ a, x = .ok a → Q a s) ∧ ∀ e, x = .error e → E e s := by
  cases x with
  | ok a =>
    have hrun : Ensures (liftM (.ok a : Except ε α) : ExceptT ε (StateM σ) α) s Q E ↔ Q a s := Iff.rfl
    simp [hrun]
  | error e =>
    have hrun : Ensures (liftM (.error e : Except ε α) : ExceptT ε (StateM σ) α) s Q E ↔ E e s := Iff.rfl
    simp [hrun]

@[simp] lemma ensures_throw (e : ε) : Ensures (throw e : ExceptT ε (StateM σ) α) s Q E ↔ E e s := Iff.rfl

@[simp] lemma ensures_tryCatch (p : ExceptT ε (StateM σ) α) (handler : ε → ExceptT ε (StateM σ) α) :
    Ensures (tryCatch p handler) s Q E ↔ Ensures p s Q fun e t => Ensures (handler e) t Q E := by
  have hrun : (tryCatch p handler).run.run s =
      match p.run.run s with
      | (.ok a, t) => (.ok a, t)
      | (.error e, t) => (handler e).run.run t := by
    unfold StateT.run ExceptT.run
    simp only [tryCatch, tryCatchThe, MonadExceptOf.tryCatch, ExceptT.tryCatch, ExceptT.mk, bind, StateT.bind]
    rcases p s with ⟨_ | a, t⟩ <;> rfl
  rw [Ensures, Ensures, hrun]
  rcases p.run.run s with ⟨_ | a, t⟩ <;> rfl

lemma Ensures.mono {p : ExceptT ε (StateM σ) α} {Q' : α → σ → Prop} {E' : ε → σ → Prop}
    (h : Ensures p s Q E) (hQ : ∀ a t, Q a t → Q' a t) (hE : ∀ e t, E e t → E' e t) :
    Ensures p s Q' E' := by
  rw [Ensures] at h ⊢
  rcases hrun : p.run.run s with ⟨_ | a, t⟩ <;> rw [hrun] at h
  · exact hE _ t h
  · exact hQ a t h

end Ensures

namespace Store

variable {store : Store} {path other : StorePath} {entry : StoreEntry}

section Entries

lemma lookup_cons_ite (key : StorePath) (entries : List (StorePath × StoreEntry)) :
    ((key, entry) :: entries).lookup other =
      if other = key then some entry else entries.lookup other := by
  rw [List.lookup_cons]
  by_cases h : other = key
  · simp [h]
  · rw [beq_false_of_ne h, if_neg h]

lemma lookup_replaced (entries : List (StorePath × StoreEntry)) :
    (entries.map fun (other, old) => (other, if other = path then entry else old)).lookup other =
      if other = path then (entries.lookup other).map fun _ => entry else entries.lookup other := by
  induction entries with
  | nil => simp
  | cons first entries ih =>
    obtain ⟨key, old⟩ := first
    simp only [List.map_cons, lookup_cons_ite, ih]
    by_cases hkey : other = key
    · by_cases hpath : other = path <;> simp [← hkey, hpath]
    · simp [hkey]

lemma lookup_insert :
    (store.insert path entry).entries.lookup other =
      if other = path then some entry else store.entries.lookup other := by
  rw [insert]
  split
  · next hsome =>
    rw [lookup_replaced]
    split
    · next heq =>
      obtain ⟨old, hold⟩ := Option.isSome_iff_exists.1 hsome
      rw [heq, hold]
      rfl
    · rfl
  · next hnone =>
    rw [Option.not_isSome_iff_eq_none] at hnone
    rw [List.lookup_append, lookup_cons_ite]
    by_cases heq : other = path
    · simp [heq, hnone]
    · simp [heq]

lemma lookup_erase (store : Store) (path other : StorePath) :
    (store.erase path).entries.lookup other =
      if other = path then none else store.entries.lookup other := by
  rw [erase]
  induction store.entries with
  | nil => simp
  | cons first entries ih =>
    obtain ⟨key, old⟩ := first
    by_cases hkey : key = path
    · rw [List.filter_cons_of_neg (by simp [hkey]), ih, lookup_cons_ite]
      by_cases heq : other = path <;> simp [heq, hkey]
    · rw [List.filter_cons_of_pos (by simp [hkey]), lookup_cons_ite, lookup_cons_ite, ih]
      by_cases heq : other = key
      · simp [heq, hkey]
      · simp [heq]

lemma entry?_congr {after : Store} (h : after.entries.lookup path = store.entries.lookup path) :
    after.entry? path = store.entry? path := by rw [ entry?, entry?, h]

lemma entry?_insert_self : Store.entry? (store.insert path entry) path = some entry := by
  rw [ entry?, lookup_insert, if_pos rfl]

lemma entry?_insert_of_ne (h : other ≠ path) :
    Store.entry? (store.insert path entry) other = store.entry? other :=
  entry?_congr (by rw [lookup_insert, if_neg h])

lemma erase_insert_self : (store.insert path entry).erase path = store.erase path := by
  have hkept (entries : List (StorePath × StoreEntry)) :
      (entries.map fun (other, old) => (other, if other = path then entry else old)).filter
          (fun (other, _) => other ≠ path) =
        entries.filter fun (other, _) => other ≠ path := by
    induction entries with
    | nil => rfl
    | cons first entries ih =>
      obtain ⟨key, old⟩ := first
      by_cases hkey : key = path
      · simp only [List.map_cons]
        rw [List.filter_cons_of_neg (by simp [hkey]), List.filter_cons_of_neg (by simp [hkey]), ih]
      · simp only [List.map_cons, if_neg hkey]
        rw [List.filter_cons_of_pos (by simp [hkey]), List.filter_cons_of_pos (by simp [hkey]), ih]
  rw [insert, erase, erase]
  split
  · rw [hkept]
  · rw [List.filter_append, List.filter_cons_of_neg (by simp), List.filter_nil, List.append_nil]

lemma erase_insert_of_ne (h : path ≠ other) :
    (store.insert path entry).erase other = (store.erase other).insert path entry := by
  have hlookup : (store.erase other).entries.lookup path = store.entries.lookup path := by
    rw [lookup_erase, if_neg h]
  rw [insert, insert, hlookup]
  split
  · rw [erase, erase, List.filter_map]
    rfl
  · rw [erase, erase, List.filter_append, List.filter_cons_of_pos (by simp [h]), List.filter_nil]

lemma erase_of_lookup_none (h : store.entries.lookup path = none) : store.erase path = store := by
  have hkept : store.entries.filter (fun (other, _) => other ≠ path) = store.entries := by
    refine List.filter_eq_self.2 fun first hfirst => ?_
    have hne := List.lookup_eq_none_iff.1 h first hfirst
    simpa using (bne_iff_ne.1 hne).symm
  rw [erase, hkept]

end Entries

section TemporaryFiles

lemma temporaryName_injective : Function.Injective temporaryName := by
  intro m n h
  have hdigits : Text.ofNat m = Text.ofNat n := by
    have htail := (List.cons.inj h).2
    exact List.append_cancel_right htail
  rw [Text.ofNat, Text.ofNat] at hdigits
  rw [← Nat.ofDigitChars_ten_toDigits (n := m), hdigits, Nat.ofDigitChars_ten_toDigits]

lemma temporaryName_ne_dots (n : Nat) : temporaryName n ≠ ['.', '.'] := by
  intro h
  have hlength := congrArg List.length h
  simp [temporaryName] at hlength

lemma entry?_temporary (directory : StorePath) (n : Nat) :
    store.entry? (directory ++ [temporaryName n]) =
      store.entries.lookup (directory ++ [temporaryName n]) := by
  have habove : StorePath.isAbove (directory ++ [temporaryName n]) = false := by
    simp [StorePath.isAbove, temporaryName_ne_dots n]
  have hroot : directory ++ [temporaryName n] ≠ StorePath.root := by
    intro h
    have hlast := congrArg List.getLast? h
    simp [StorePath.root, temporaryName] at hlast
  rw [ entry?]
  cases store.entries.lookup (directory ++ [temporaryName n]) with
  | some found => rfl
  | none => simp [habove, hroot]

/-- If the path that is found is in use, all paths that were tried are in use. -/
lemma freshPath_in_use (directory : StorePath) (fuel n : Nat)
    (h : (store.entry? (store.freshPath directory fuel n)).isSome = true) :
    ∀ i ≤ fuel, (store.entry? (directory ++ [temporaryName (n + i)])).isSome = true := by
  induction fuel generalizing n with
  | zero =>
    intro i hi
    obtain rfl : i = 0 := by omega
    exact h
  | succ fuel ih =>
    rw [freshPath] at h
    split at h
    · next hused =>
      intro i hi
      cases i with
      | zero => exact hused
      | succ i =>
        have hnext := ih (n + 1) h i (by omega)
        rwa [show n + 1 + i = n + (i + 1) by omega] at hnext
    · next hfree => exact absurd h hfree

lemma exists_freshPath (store : Store) (directory : StorePath) (fuel n : Nat) :
    ∃ m, store.freshPath directory fuel n = directory ++ [temporaryName m] := by
  induction fuel generalizing n with
  | zero => exact ⟨n, rfl⟩
  | succ fuel ih =>
    rw [freshPath]
    split
    · exact ih (n + 1)
    · exact ⟨n, rfl⟩

/-- There are more paths to try than entries, so one of them is free. -/
lemma entry?_freshPath (store : Store) (directory : StorePath) :
    store.entry? (store.freshPath directory store.entries.length 0) = none := by
  by_contra hused
  have hall := freshPath_in_use directory store.entries.length 0 (Option.ne_none_iff_isSome.1 hused)
  -- as many different paths as numbers were tried, and each of them has an entry
  let tried := (List.range (store.entries.length + 1)).map fun i => directory ++ [temporaryName i]
  have hnodup : tried.Nodup := by
    refine List.Nodup.map (fun i j hij => temporaryName_injective ?_) List.nodup_range
    simpa using hij
  have hsubset : tried ⊆ store.entries.map Prod.fst := by
    intro path hpath
    obtain ⟨i, hi, rfl⟩ := List.mem_map.1 hpath
    rw [List.mem_range] at hi
    have hsome := hall i (by omega)
    rw [Nat.zero_add, entry?_temporary] at hsome
    obtain ⟨found, hfound⟩ := Option.isSome_iff_exists.1 hsome
    obtain ⟨front, rest, hentries, -⟩ := List.lookup_eq_some_iff.1 hfound
    simp [hentries]
  have hlength := (hnodup.subperm hsubset).length_le
  simp only [tried, List.length_map, List.length_range] at hlength
  omega

lemma lookup_freshPath (store : Store) (directory : StorePath) :
    store.entries.lookup (store.freshPath directory store.entries.length 0) = none := by
  have hfree := store.entry?_freshPath directory
  obtain ⟨m, hm⟩ := store.exists_freshPath directory store.entries.length 0
  rw [hm] at hfree ⊢
  rwa [entry?_temporary] at hfree

end TemporaryFiles

section Extensions

variable {after : Store} {name : Text} {target : StorePath}

def KeepsDirectories (after store : Store) : Prop :=
  ∀ path mode, store.entry? path = some (.directory mode) → after.entry? path = some (.directory mode)

lemma KeepsDirectories.follow (h : after.KeepsDirectories store) {here : StorePath} {names : List Text}
    (hf : store.follow here names = .ok target) : after.follow here names = .ok target := by
  induction names generalizing here with
  | nil => exact hf
  | cons name names ih =>
    obtain ⟨⟨⟨mode, hentry⟩, hlimit⟩, hrest⟩ := follow_cons_iff.1 hf
    exact follow_cons_iff.2 ⟨⟨⟨mode, h here mode hentry⟩, hlimit⟩, ih hrest⟩

lemma KeepsDirectories.resolve (h : after.KeepsDirectories store) (hr : store.resolve name = .ok target) :
    after.resolve name = .ok target := by
  rw [Store.resolve, followNames] at hr ⊢
  split at hr
  · cases hr
  · next hne =>
    rw [if_neg hne]
    split at hr
    · cases hr
    · next hnull =>
      rw [if_neg hnull]
      split at hr
      · cases hr
      · next hlimit => rw [if_neg hlimit]; exact h.follow hr

/-- What stands in the second store stands in the first one, too. -/
def Extends (after store : Store) : Prop :=
  ∀ path entry, store.entry? path = some entry → after.entry? path = some entry

lemma Extends.resolve (h : after.Extends store) (hr : store.resolve name = .ok target) :
    after.resolve name = .ok target :=
  KeepsDirectories.resolve (fun path mode => h path (.directory mode)) hr

lemma find_ok_iff :
    store.find name = .ok entry ↔ ∃ path, store.resolve name = .ok path ∧ store.entry? path = some entry := by
  rw [find]
  cases hr : store.resolve name with
  | error e => simp [bind, Except.bind]
  | ok path =>
    cases he : store.entry? path with
    | none => simp [bind, Except.bind, he, throw, throwThe, MonadExceptOf.throw]
    | some found => simp [bind, Except.bind, he, pure, Except.pure]

lemma Extends.find (h : after.Extends store) (hf : store.find name = .ok entry) :
    after.find name = .ok entry := by
  obtain ⟨path, hr, he⟩ := find_ok_iff.1 hf
  exact find_ok_iff.2 ⟨path, h.resolve hr, h path entry he⟩

lemma extends_of_erase (h : after.erase path = store) (hfree : store.entry? path = none) :
    after.Extends store := by
  intro other entry hentry
  have hne : other ≠ path := by
    rintro rfl
    rw [hfree] at hentry
    cases hentry
  have hlookup := after.lookup_erase path other
  rw [h, if_neg hne] at hlookup
  rw [← hentry]
  exact entry?_congr hlookup.symm

end Extensions

section Replacing

variable {refusals : Refusals} {temporary : StorePath} {name : Text} {content : List UInt8}

/-- Apart from a temporary file, the store is the old one. -/
structure Staged (store : Store) (temporary : StorePath) (after : Store) : Prop where
  rest : after.erase temporary = store
  file : ∃ content mode, after.entry? temporary = some (.file content mode)

lemma Staged.insert {made : Store} (h : Staged store temporary made) (content : List UInt8) (mode : Nat) :
    Staged store temporary (made.insert temporary (.file content mode)) :=
  ⟨erase_insert_self.trans h.rest, content, mode, entry?_insert_self⟩

lemma Staged.entry?_of_ne {after : Store} (h : Staged store temporary after) (hne : other ≠ temporary) :
    after.entry? other = store.entry? other := by
  have hlookup := after.lookup_erase temporary other
  rw [h.rest, if_neg hne] at hlookup
  exact entry?_congr hlookup.symm

/-- The temporary file is ready to be moved: it has its content and the permissions of the file that it
replaces, and apart from it the store is the old one. -/
structure Ready (store : Store) (refusals : Refusals) (temporary : StorePath) (name : Text)
    (content : List UInt8) (ready : Store) : Prop where
  rest : ready.erase temporary = store
  entry : ∃ mode, ready.entry? temporary = some (.file content mode) ∧
    ∀ found, store.find name = .ok found → mode = found.mode
  fill : refusals.check .fill = .ok ()
  setMode : ∀ found, store.find name = .ok found → refusals.check .setMode = .ok ()

lemma Ready.staged {ready : Store} (h : Ready store refusals temporary name content ready) :
    Staged store temporary ready := by
  obtain ⟨mode, hentry, -⟩ := h.entry
  exact ⟨h.rest, content, mode, hentry⟩

/-- Why a temporary file that has been made is not moved. -/
inductive CannotFinish (store : Store) (refusals : Refusals) (temporary : StorePath) (name : Text)
    (content : List UInt8) (error : StoreError) : Prop where
  | refused {step : FileStep} (hstep : step ∈ [FileStep.fill, .setMode, .move])
      (h : refusals.check step = .error error)
  | name {ready : Store} (hready : Ready store refusals temporary name content ready)
      (h : ready.targetOf name = .error error)
  | target {ready : Store} {target : StorePath} (hready : Ready store refusals temporary name content ready)
      (ht : ready.targetOf name = .ok target) (h : ready.rename temporary target = .error error)

lemma prepare_ensures {made : Store} (hmade : Staged store temporary made)
    (hfree : store.entry? temporary = none) :
    Ensures (prepare refusals temporary name content) made
      (fun _ ready => Ready store refusals temporary name content ready)
      (fun error after => Staged store temporary after ∧
        CannotFinish store refusals temporary name content error) := by
  have hfind {mode : Nat} {found : StoreEntry} (h : store.find name = .ok found) :
      (made.insert temporary (.file content mode)).find name = .ok found :=
    (extends_of_erase (hmade.insert content mode).rest hfree).find h
  unfold prepare
  simp only [ensures_bind, ensures_lift, ensures_modify, ensures_get]
  refine ⟨fun _ hfill => ?_, fun error herror => ⟨hmade, .refused (by simp) herror⟩⟩
  have hfilled := hmade.insert content temporaryMode
  cases hf : (made.insert temporary (.file content temporaryMode)).find name with
  | error _ =>
    have hnone (found : StoreEntry) : store.find name ≠ .ok found := by
      intro hfound
      rw [hfind hfound] at hf
      cases hf
    simp only [ensures_pure]
    exact ⟨hfilled.rest,
      ⟨temporaryMode, entry?_insert_self, fun found hfound => absurd hfound (hnone found)⟩,
      hfill, fun found hfound => absurd hfound (hnone found)⟩
  | ok entry =>
    simp only [ensures_bind, ensures_lift, ensures_modify]
    refine ⟨fun _ hmode => ⟨(hfilled.insert _ _).rest, ⟨entry.mode, entry?_insert_self, ?_⟩, hfill,
      fun _ _ => hmode⟩, fun error herror => ⟨hfilled, .refused (by simp) herror⟩⟩
    intro found hfound
    rw [hfind hfound] at hf
    cases hf
    rfl

lemma moveOver_ensures {ready : Store} (hready : Ready store refusals temporary name content ready) :
    Ensures (moveOver refusals temporary name) ready
      (fun _ after => refusals.check .move = .ok () ∧
        ∃ target, ready.targetOf name = .ok target ∧ ready.rename temporary target = .ok after)
      (fun error after => Staged store temporary after ∧
        CannotFinish store refusals temporary name content error) := by
  unfold moveOver
  simp only [ensures_bind, ensures_lift, ensures_get, ensures_set]
  refine ⟨fun target htarget => ⟨fun _ hmove => ⟨fun after hafter => ?_, ?_⟩, ?_⟩, ?_⟩
  · exact ⟨hmove, target, htarget, hafter⟩
  · exact fun error herror => ⟨hready.staged, .target hready htarget herror⟩
  · exact fun error herror => ⟨hready.staged, .refused (by simp) herror⟩
  · exact fun error herror => ⟨hready.staged, .name hready herror⟩

/-- Why no temporary file is made. -/
inductive CannotMake (store : Store) (refusals : Refusals) (name : Text) (error : StoreError) : Prop where
  | refused (h : refusals.check .create = .error error)
  | directory (h : store.directoryOf name = .error error)

/-- A temporary file is made beside the file with a name. -/
structure Makes (store : Store) (refusals : Refusals) (name : Text) (temporary : StorePath) : Prop where
  create : refusals.check .create = .ok ()
  free : store.entry? temporary = none
  beside : ∃ directory n, store.directoryOf name = .ok directory ∧ temporary = directory ++ [temporaryName n]

/-- How a replacement ends. -/
inductive ReplaceEnds (store : Store) (refusals : Refusals) (name : Text) (content : List UInt8) :
    Except StoreError Unit → Store → Prop where
  | notMade {error : StoreError} (h : CannotMake store refusals name error) :
      ReplaceEnds store refusals name content (.error error) store
  | discarded {temporary : StorePath} {error : StoreError} (made : Makes store refusals name temporary)
      (h : CannotFinish store refusals temporary name content error)
      (hremove : refusals.check .remove = .ok ()) :
      ReplaceEnds store refusals name content (.error error) store
  | stranded {temporary : StorePath} {error refusal : StoreError} {after : Store}
      (made : Makes store refusals name temporary)
      (h : CannotFinish store refusals temporary name content error)
      (hremove : refusals.check .remove = .error refusal) (staged : Staged store temporary after) :
      ReplaceEnds store refusals name content (.error refusal) after
  | replaced {temporary target : StorePath} {ready after : Store}
      (made : Makes store refusals name temporary)
      (prepared : Ready store refusals temporary name content ready)
      (hmove : refusals.check .move = .ok ()) (named : ready.targetOf name = .ok target)
      (renamed : ready.rename temporary target = .ok after) :
      ReplaceEnds store refusals name content (.ok ()) after

lemma discard_ensures {after : Store} (staged : Staged store temporary after) :
    Ensures (discard refusals temporary) after
      (fun _ rest => rest = store ∧ refusals.check .remove = .ok ())
      (fun refusal rest => rest = after ∧ refusals.check .remove = .error refusal) := by
  unfold discard
  simp only [ensures_bind, ensures_lift, ensures_modify]
  exact ⟨fun _ hremove => ⟨staged.rest, hremove⟩, fun refusal hremove => ⟨trivial, hremove⟩⟩

lemma replaceBy_ensures {made : Store} (h : Makes store refusals name temporary)
    (hmade : Staged store temporary made) (content : List UInt8) :
    Ensures (replaceBy refusals temporary name content) made
      (fun _ after => ReplaceEnds store refusals name content (.ok ()) after)
      (fun error after => ReplaceEnds store refusals name content (.error error) after) := by
  have hcleanup (error : StoreError) (after : Store) (staged : Staged store temporary after)
      (hwhy : CannotFinish store refusals temporary name content error) :
      Ensures (do discard refusals temporary; throw error : StoreChange Unit) after
        (fun _ rest => ReplaceEnds store refusals name content (.ok ()) rest)
        (fun e rest => ReplaceEnds store refusals name content (.error e) rest) := by
    simp only [ensures_bind, ensures_throw]
    refine (discard_ensures staged).mono (fun _ rest hrest => ?_) fun refusal rest hrest => ?_
    · obtain ⟨rfl, hremove⟩ := hrest
      exact .discarded h hwhy hremove
    · obtain ⟨rfl, hremove⟩ := hrest
      exact .stranded h hwhy hremove staged
  unfold replaceBy
  rw [ensures_tryCatch, ensures_bind]
  refine (prepare_ensures hmade h.free).mono (fun _ ready hready => ?_)
    fun error after hafter => hcleanup error after hafter.1 hafter.2
  refine (moveOver_ensures hready).mono (fun _ after hafter => ?_)
    fun error after hafter => hcleanup error after hafter.1 hafter.2
  obtain ⟨hmove, target, htarget, hrenamed⟩ := hafter
  exact .replaced h hready hmove htarget hrenamed

lemma replace_ends (store : Store) (refusals : Refusals) (name : Text) (content : List UInt8) :
    ReplaceEnds store refusals name content (store.replace name content refusals).1
      (store.replace name content refusals).2 := by
  rw [replace]
  cases hcreate : refusals.check .create with
  | error error => exact .notMade (.refused hcreate)
  | ok _ =>
    cases hdirectory : store.directoryOf name with
    | error error => exact .notMade (.directory hdirectory)
    | ok directory =>
      obtain ⟨n, hn⟩ := store.exists_freshPath directory store.entries.length 0
      have hmakes : Makes store refusals name (store.freshPath directory store.entries.length 0) :=
        ⟨hcreate, store.entry?_freshPath directory, directory, n, hdirectory, hn⟩
      have hmade : Staged store (store.freshPath directory store.entries.length 0)
          (store.insert (store.freshPath directory store.entries.length 0) (.file [] temporaryMode)) :=
        ⟨erase_insert_self.trans (erase_of_lookup_none (store.lookup_freshPath directory)), [],
          temporaryMode, entry?_insert_self⟩
      have hends := replaceBy_ensures hmakes hmade content
      rw [Ensures] at hends
      dsimp only [bind, Except.bind]
      split at hends
      · next hrun =>
        rw [hrun]
        exact hends
      · next hrun =>
        rw [hrun]
        exact hends

/-- Where a temporary file has been left, it stands beside the file with a name, and all else is as
before. -/
def LeavesTemporary (before after : Store) (name : Text) : Prop :=
  ∃ directory n content mode, before.directoryOf name = .ok directory ∧
    before.entry? (directory ++ [temporaryName n]) = none ∧
    after.entry? (directory ++ [temporaryName n]) = some (.file content mode) ∧
    ∀ other, other ≠ directory ++ [temporaryName n] → after.entry? other = before.entry? other

lemma Staged.leavesTemporary {after : Store} (h : Staged store temporary after)
    (made : Makes store refusals name temporary) : LeavesTemporary store after name := by
  obtain ⟨directory, n, hdirectory, rfl⟩ := made.beside
  obtain ⟨content, mode, hfile⟩ := h.file
  exact ⟨directory, n, content, mode, hdirectory, made.free, hfile, fun other hne => h.entry?_of_ne hne⟩

lemma not_leavesTemporary_self : ¬ LeavesTemporary store store name := by
  rintro ⟨directory, n, content, mode, -, hfree, hfile, -⟩
  rw [hfree] at hfile
  cases hfile

lemma targetOf_eq (h : store.resolve name = .ok path) :
    store.targetOf name =
      if [[], ['.'], ['.', '.']].contains (lastName name) then .error .busy
      else if name.getLast? = some '/' then .error .notDirectory
      else .ok path := by
  rw [targetOf, h]
  dsimp only [bind, Except.bind]
  split
  · rfl
  · dsimp only [pure, Except.pure]
    split <;> rfl

lemma eq_of_targetOf {target : StorePath} (h : store.resolve name = .ok path)
    (ht : store.targetOf name = .ok target) : target = path := by
  rw [targetOf_eq h] at ht
  split at ht
  · cases ht
  · split at ht
    · cases ht
    · exact (Except.ok.inj ht).symm

lemma Ready.rename_eq {ready : Store} (h : Ready store refusals temporary name content ready)
    (hfree : store.entry? temporary = none) (hpath : store.resolve name = .ok path) {old : List UInt8}
    {mode : Nat} (hold : store.entry? path = some (.file old mode)) :
    ready.rename temporary path = .ok (store.insert path (.file content mode)) := by
  have hne : path ≠ temporary := by
    rintro rfl
    rw [hfree] at hold
    cases hold
  obtain ⟨given, hgiven, hmode⟩ := h.entry
  obtain rfl : given = mode := hmode _ (find_ok_iff.2 ⟨path, hpath, hold⟩)
  rw [rename, hgiven, extends_of_erase h.rest hfree path _ hold]
  dsimp only
  rw [erase_insert_of_ne hne, h.rest]

variable {old : List UInt8} {mode : Nat}

lemma replace_file (hpath : store.resolve name = .ok path) (hold : store.entry? path = some (.file old mode))
    {after : Store} (h : ReplaceEnds store refusals name content (.ok ()) after) :
    after = store.insert path (.file content mode) ∧
      ∀ step ∈ [FileStep.create, .fill, .setMode, .move], refusals.check step = .ok () := by
  cases h with
  | replaced made prepared hmove named renamed =>
    have hresolve := (extends_of_erase prepared.rest made.free).resolve hpath
    rw [eq_of_targetOf hresolve named, prepared.rename_eq made.free hpath hold] at renamed
    have hfound := find_ok_iff.2 ⟨path, hpath, hold⟩
    refine ⟨(Except.ok.inj renamed).symm, ?_⟩
    simp [made.create, prepared.fill, prepared.setMode _ hfound, hmove]

lemma CannotMake.refused_create (hsound : store.Sound) (hpath : store.resolve name = .ok path)
    (hold : store.entry? path = some (.file old mode)) {error : StoreError}
    (h : CannotMake store refusals name error) : refusals.check .create = .error error := by
  cases h with
  | refused h => exact h
  | directory herror =>
    obtain ⟨⟨directory, hdirectory⟩, -⟩ := file_directory hsound hpath hold
    rw [hdirectory] at herror
    cases herror

/-- A temporary file is not moved over a file only if the system refuses a step. -/
lemma CannotFinish.exists_refused (hsound : store.Sound) (hpath : store.resolve name = .ok path)
    (hold : store.entry? path = some (.file old mode)) (hfree : store.entry? temporary = none)
    {error : StoreError} (h : CannotFinish store refusals temporary name content error) :
    ∃ step ∈ [FileStep.fill, .setMode, .move], refusals.check step = .error error := by
  obtain ⟨-, hproper, hslash⟩ := file_directory hsound hpath hold
  cases h with
  | refused hstep h => exact ⟨_, hstep, h⟩
  | name hready herror =>
    have hresolve := (extends_of_erase hready.rest hfree).resolve hpath
    rw [targetOf_eq hresolve, hproper, if_neg Bool.false_ne_true, if_neg hslash] at herror
    cases herror
  | target hready htarget herror =>
    have hresolve := (extends_of_erase hready.rest hfree).resolve hpath
    rw [eq_of_targetOf hresolve htarget, hready.rename_eq hfree hpath hold] at herror
    cases herror

lemma find_insert_file (hpath : store.resolve name = .ok path)
    (hold : store.entry? path = some (.file old mode)) :
    (store.insert path (.file content mode)).find name = .ok (.file content mode) := by
  have hkeeps : (store.insert path (.file content mode)).KeepsDirectories store := by
    intro other mode' hother
    have hne : other ≠ path := by
      rintro rfl
      rw [hold] at hother
      cases hother
    rwa [entry?_insert_of_ne hne]
  exact find_ok_iff.2 ⟨path, hkeeps.resolve hpath, entry?_insert_self⟩

end Replacing

end Store

end DpLang
