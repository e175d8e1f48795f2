import McpCli.Cli.Codex
import McpCli.Files.Folder
import McpCli.Text.Utf8

/-! The configuration file: installations that read it, and replace it by what they have made. -/

namespace McpCli.Codex

open Files Text Toml

/-- The third-party TOML library; what it writes depends on the text that was read, too. -/
structure TomlLibrary where
  parse : List Char → Except String Table
  render : List Char → Table → List Char

/-- What a process has been started for. -/
inductive Command where
  | install (bridge : List UInt8) (preferMcp dryRun : Bool)
  | uninstall (dryRun : Bool)

/-- What a command writes in the place of a document, unless it leaves it as it is. -/
def Command.edit (doc : Table) : Command → Except String (Option Table)
  | .install bridge preferMcp dryRun =>
    match Codex.install bridge preferMcp doc with
    | .error e => .error e
    | .ok updated => .ok (if dryRun then none else updated)
  | .uninstall dryRun =>
    let (doc, removed) := removeServer doc
    .ok (if removed && !dryRun then some doc else none)

/-- The text that a command makes of another one. -/
def Command.update (toml : TomlLibrary) (original : List Char) (command : Command) :
    Except String (Option (List Char)) :=
  match toml.parse original with
  | .error e => .error e
  | .ok doc =>
    match command.edit doc with
    | .error e => .error e
    | .ok none => .ok none
    | .ok (some doc) => .ok (some (toml.render original doc))

/-- How far a process has come. -/
inductive ConfigPhase where
  | started
  /-- In front of the test in `read_or_empty` whether there is a file. -/
  | looking
  | opening
  | reading (file : Nat)
  | loaded (original : List Char)
  /-- In front of opening the temporary file. -/
  | creating (updated : List UInt8)
  | writing (file : Nat) (updated : List UInt8) (written : Nat)
  | done
  | failed (error : String)
  | killed

/-- The temporary file is about to be opened. -/
def ConfigPhase.isCreating : ConfigPhase → Bool
  | .creating _ => true
  | _ => false

/-- The temporary file is open. -/
def ConfigPhase.isWriting : ConfigPhase → Bool
  | .writing .. => true
  | _ => false

/-- A process with what it has been started for. -/
structure ConfigProcess where
  command : Command
  phase : ConfigPhase

/-- The directory of the configuration, and the processes at work in it. -/
structure ConfigFile where
  folder : Folder
  processes : List ConfigProcess

namespace ConfigFile

/-- The next thing that happens. -/
inductive Action where
  | start (command : Command)
  /-- A process takes its next step. -/
  | advance (process : Nat)
  /-- The next bytes are written. -/
  | write (process count : Nat)
  /-- A process comes to its end wherever it is, as it is killed or the system fails. -/
  | kill (process : Nat)

/-- The next step of a process, if there is one. -/
def next (toml : TomlLibrary) (folder : Folder) (command : Command) :
    ConfigPhase → Option (Folder × ConfigPhase)
  | .started =>
    match command with
    | .install .. => some (folder, .looking)
    | .uninstall _ => some (folder, if folder.main.isSome then .looking else .done)
  | .looking => some (folder, if folder.main.isSome then .opening else .loaded [])
  | .opening =>
    match folder.main with
    | some file => some (folder, .reading file)
    | none => some (folder, .failed "reading")
  | .reading file =>
    match decodeUtf8 (folder.contents file) with
    | some original => some (folder, .loaded original)
    | none => some (folder, .failed "reading")
  | .loaded original =>
    match command.update toml original with
    | .error e => some (folder, .failed e)
    | .ok none => some (folder, .done)
    | .ok (some updated) => some (folder, .creating (encodeUtf8 updated))
  | .creating updated =>
    let (file, folder) := folder.create
    some (folder, .writing file updated 0)
  | .writing _ updated written =>
    -- The file is renamed when all of it has been written.
    if written < updated.length then none
    else
      match folder.rename with
      | some folder => some (folder, .done)
      | none => some (folder, .failed "renaming")
  | .done | .failed _ | .killed => none

/-- Write the next bytes. -/
def nextWrite (folder : Folder) (count : Nat) : ConfigPhase → Option (Folder × ConfigPhase)
  | .writing file updated written =>
    if 0 < count ∧ written + count ≤ updated.length then
      some (folder.write file written ((updated.drop written).take count),
        .writing file updated (written + count))
    else none
  | _ => none

/-- Take one step, if it is possible. -/
def step (toml : TomlLibrary) (s : ConfigFile) : Action → Option ConfigFile
  | .start command => some { s with processes := s.processes ++ [⟨command, .started⟩] }
  | .advance process =>
    s.processes[process]?.bind fun p =>
      (next toml s.folder p.command p.phase).map fun (folder, phase) =>
        { folder, processes := s.processes.set process { p with phase } }
  | .write process count =>
    s.processes[process]?.bind fun p =>
      (nextWrite s.folder count p.phase).map fun (folder, phase) =>
        { folder, processes := s.processes.set process { p with phase } }
  | .kill process =>
    s.processes[process]?.map fun p =>
      { s with processes := s.processes.set process { p with phase := .killed } }

end ConfigFile

end McpCli.Codex
