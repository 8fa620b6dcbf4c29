import DpLang.Command.Run

/-!
# The command line

Reads the file that the arguments name into a store, runs the command on it, and carries out what
the command has done. Other programs cannot be started from here, so no diff tool is known. Nor can
the permissions of a file be read, so that every file counts as one that all may read.
-/

namespace DpLang

/-- The store that holds the file or directory with a name, or nothing if there is none. -/
def loadStore (name : Text) : IO Store := do
  try
    let content ← IO.FS.readBinFile (String.ofList name)
    return .holding name (.file content.toList 0o644)
  catch
    | .inappropriateType .. => return .holding name (.directory 0o755)
    | _ => return ⟨[]⟩

/-- Permissions as the file system takes them. -/
def fileRight (mode : Nat) : IO.FileRight :=
  let right (bits : Nat) : IO.AccessRight := ⟨bits &&& 4 != 0, bits &&& 2 != 0, bits &&& 1 != 0⟩
  ⟨right (mode >>> 6), right (mode >>> 3), right mode⟩

/-- Replaces a file of the file system in the steps of `Store.replace`. -/
def replaceOnDisk (name : Text) (content : List UInt8) (mode : Nat) : IO Unit := do
  let number ← IO.rand 0 0xffffffffffffffff
  let temporary := String.ofList (Store.directoryName name ++ '/' :: Store.temporaryName number)
  let handle ← IO.FS.Handle.mk temporary .writeNew
  try
    IO.setAccessRights temporary (fileRight Store.temporaryMode)
    handle.write ⟨content.toArray⟩
    handle.flush
    IO.setAccessRights temporary (fileRight mode)
    IO.FS.rename temporary (String.ofList name)
  catch error =>
    IO.FS.removeFile temporary
    throw error

/-- Puts the file that the command has replaced in the store into the file system. -/
def saveFile (name : Text) (store : Store) : IO Unit := do
  if let .ok (.file content mode) := store.find name then
    replaceOnDisk name content mode

end DpLang

open DpLang in
/-- Formats the file that the arguments name. -/
def main (args : List String) : IO UInt32 := do
  let preferred ← IO.getEnv "DPFMT_DIFF"
  let request := Options.parse (preferred.map String.toList) (args.map String.toList)
  let store ←
    match request with
    | .format options => loadStore options.file
    | _ => pure ⟨[]⟩
  let outcome := Command.fulfil (fun _ => none) [] { store } request
  if let .format options := request then
    if options.write && outcome.status = 0 then
      try
        saveFile options.file outcome.session.store
      catch error =>
        IO.eprintln error
        return 1
  (← IO.getStdout).write ⟨outcome.session.out.toArray⟩
  (← IO.getStderr).write ⟨outcome.session.err.toArray⟩
  return outcome.status.toUInt32
