import ScriptMailbox.Program

/-!
# The command line

The program on the machine it runs on. A file is waited for by looking again and again; a
termination signal ends the process at once.
-/

namespace ScriptMailbox.Machine

/-- A path of the machine, as an entry of the working directory. -/
def place (path : Path) : IO.FS.DirEntry :=
  ⟨".", path.text⟩

/-- The fault that an error of the machine stands for. -/
def faultOf : IO.Error → DiskFault
  | .noFileOrDirectory .. => .noEntry
  | .alreadyExists .. => .entryExists
  | .inappropriateType _ 20 _ => .notDirectory
  | .inappropriateType _ 21 _ => .isDirectory
  | .invalidArgument _ 36 _ => .nameTooLong
  | .invalidArgument _ 40 _ => .tooManyLinks
  | error => .other (toString error)

/-- The result of an operation of the machine, for a path that may lead somewhere. -/
def attempt {α : Type} (path : Path) (operation : IO α) : IO (Except DiskFault α) := do
  match path.fault? with
  | some fault => pure (.error fault)
  | none =>
    try
      pure (.ok (← operation))
    catch error =>
      pure (.error (faultOf error))

/-- The kind of what a path leads to. -/
def kind? (path : Path) : IO (Option Kind) := do
  match ← attempt path (place path).path.metadata with
  | .error _ => pure none
  | .ok metadata =>
    match metadata.type with
    | .dir => pure (some .directory)
    | .file => pure (some .file)
    | _ => pure none

/-- The names in a directory, in order. -/
def names (path : Path) : IO (Except DiskFault (List String)) := do
  let listed ← attempt path (place path).path.readDir
  pure (listed.map fun entries =>
    (entries.toList.map (·.fileName)).mergeSort fun a b => decide (a ≤ b))

/-- The type of an entry itself. -/
def typeOf? (path : Path) : IO (Option IO.FS.FileType) := do
  match ← attempt path (place path).path.symlinkMetadata with
  | .error _ => pure none
  | .ok metadata => pure (some metadata.type)

/-- The names of the regular files in a directory. -/
def fileNames (path : Path) : IO (Except DiskFault (List String)) := do
  match ← names path with
  | .error fault => pure (.error fault)
  | .ok names =>
    let files ← names.filterM fun name => do
      match ← typeOf? (path.join name) with
      | some .file => pure true
      | _ => pure false
    pure (.ok files)

/-- The regular files below a directory. -/
partial def filesBelow (path : Path) : IO (List Path) := do
  match ← names path with
  | .error _ => pure []
  | .ok names =>
    let found ← names.mapM fun name => do
      let entry := path.join name
      match ← typeOf? entry with
      | some .file => pure [entry]
      | some .dir => filesBelow entry
      | _ => pure []
    pure found.flatten

/-- Looks for a file until it is there. -/
partial def await (path : Path) (pollMs : Nat) : IO Wait := do
  if (← attempt path (place path).path.metadata).isOk then
    pure .arrived
  else
    IO.sleep (UInt32.ofNat (min pollMs 4294967295))
    await path pollMs

/-- The bytes up to the next line feed. -/
partial def readLine (stream : IO.FS.Stream) (line : List UInt8) : IO Bytes := do
  let read ← stream.read 1
  match read.data.toList with
  | [] => pure line.reverse
  | byte :: _ => if byte = 10 then pure (byte :: line).reverse else readLine stream (byte :: line)

/-- Shows a text at once. -/
def print (text : String) : IO Unit := do
  let stream ← IO.getStdout
  stream.putStr text
  stream.flush

instance : Host IO where
  kind? := kind?
  read path := attempt path do
    pure (← IO.FS.readBinFile (place path).path).data.toList
  write path content := attempt path (IO.FS.writeBinFile (place path).path ⟨content.toArray⟩)
  makeDirectories path :=
    if path.text = "" then pure (.ok ())
    else attempt path (IO.FS.createDirAll (place path).path)
  fileNames := fileNames
  filesBelow := filesBelow
  removeFile path := attempt path (IO.FS.removeFile (place path).path)
  isCancelled := pure false
  watchSignals _ := pure ()
  takeLastSweep := pure true
  await := await
  readLine := do readLine (← IO.getStdin) []
  print := print

/-- Serves console lines until the console is left. -/
partial def turns : SessionM IO Unit := do
  match ← Console.turn with
  | .quit => pure ()
  | .again => turns

/-- Serves the console. -/
def serve : SessionM IO Unit := do
  Console.say Console.banner
  turns

/-- The directory that holds the listing of a user's directories. -/
def configuration (home : Path) : IO Path := do
  match ← IO.getEnv "XDG_CONFIG_HOME" with
  | some directory =>
    pure (if Path.isAbsolute ⟨directory⟩ then ⟨directory⟩ else home.join ".config")
  | none => pure (home.join ".config")

/-- What is known of the documents directory of the user. -/
def documents : IO Documents := do
  match ← IO.getEnv "HOME" with
  | none | some "" => pure .absent
  | some home =>
    let listing := (← configuration ⟨home⟩).join "user-dirs.dirs"
    match ← TextFile.read listing with
    | .error _ => pure .absent
    | .ok text => pure (Documents.ofListing ⟨home⟩ text)

end ScriptMailbox.Machine

/-- The program of the command line. -/
def main (arguments : List String) : IO UInt32 := do
  let documents ← ScriptMailbox.Machine.documents
  let ending ← ScriptMailbox.Program.run ScriptMailbox.Machine.serve documents arguments
  pure (UInt32.ofNat (ending.exitCode?.getD 0))
