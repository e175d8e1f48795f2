import McpCli.Cli.ConfigFile
import McpCli.Proofs.Cli.CodexInstall
import McpCli.Text.Lossy
import McpCli.Transition.Population
import McpCli.Transition.Run

/-! The settings of the user, whatever installations come and go, and wherever they are killed. -/

namespace McpCli.Codex

open Files Text Toml Toml.Table Transition

/-! What a command leaves alone. -/

/-- A path to a setting that is not one of ours, nor a table that one of ours may be in. -/
def Foreign : List String → Prop
  | [] => False
  | key :: path =>
    if key = "mcp_servers" then ∃ name ∈ path.head?, name ≠ serverName
    else if key = "features" then ∃ name ∈ path.head?, name ≠ "shell_tool"
    else True

/-- The settings that are not ours are the same. -/
def Kept (before after : Table) : Prop := ∀ path, Foreign path → after.look path = before.look path

/-- Nothing has been changed. -/
theorem Kept.refl (doc : Table) : Kept doc doc := fun _ _ => rfl

/-- What two changes keep, both of them together keep. -/
theorem Kept.trans {before middle after : Table} (first : Kept before middle)
    (second : Kept middle after) : Kept before after := fun path foreign =>
  (second path foreign).trans (first path foreign)

variable {doc after : Table}

/-- A change at one key of a table keeps what is at other keys of it. -/
theorem look_within_ne {form : Form} {entries changed : Table} {key other : String}
    (entered : doc.enter key = some (form, entries))
    (kept : ∀ path, changed.look (other :: path) = entries.look (other :: path))
    (path : List String) :
    (doc.insert key (.table form changed)).look (key :: other :: path) =
      doc.look (key :: other :: path) := by
  -- Behind the key, the changed table is looked at instead of the old one.
  rw [look_insert_self, look_table, kept, enter_look entered (List.cons_ne_nil _ _)]

/-- A change of the servers that is one of our own server keeps all other settings. -/
theorem kept_servers {form : Form} {servers changed : Table}
    (entered : doc.enter "mcp_servers" = some (form, servers))
    (kept : ∀ name, name ≠ serverName → ∀ path,
      changed.look (name :: path) = servers.look (name :: path)) :
    Kept doc (doc.insert "mcp_servers" (.table form changed)) := by
  intro path foreign
  cases path with
  | nil => cases foreign
  | cons key path =>
    -- A path of another top table is not touched at all.
    by_cases own : key = "mcp_servers"
    · subst own
      rw [Foreign, if_pos rfl] at foreign
      obtain ⟨name, first, apart⟩ := foreign
      cases path with
      | nil => cases first
      | cons _ path =>
        cases first
        exact look_within_ne entered (kept name apart) path
    · exact look_insert_ne own ..

/-- What is inserted for our own server is no change of another one. -/
theorem look_insert_server (servers : Table) (item : Item) (name : String)
    (apart : name ≠ serverName) (path : List String) :
    (servers.insert serverName item).look (name :: path) = servers.look (name :: path) :=
  look_insert_ne apart servers item path

/-- The registration keeps all other settings. -/
theorem upsertServer_kept {bridge : List UInt8} {flag : Bool}
    (ok : upsertServer bridge doc = .ok (after, flag)) : Kept doc after := by
  obtain ⟨form, servers, changed, entered, made, rfl⟩ := within_eq_ok ok
  refine kept_servers entered fun name apart path => ?_
  -- Whatever is there, our own entry is what is inserted.
  split at made
  · cases made
    exact look_insert_server servers _ name apart path
  · split at made
    · cases made
      exact look_insert_server servers _ name apart path
    · cases made
      exact look_insert_server servers _ name apart path

/-- So do the approvals. -/
theorem upsertToolApprovals_kept {tools : List String} {flag : Bool}
    (ok : upsertToolApprovals tools doc = .ok (after, flag)) : Kept doc after := by
  obtain ⟨form, servers, changed, entered, made, rfl⟩ := within_eq_ok ok
  refine kept_servers entered fun name apart path => ?_
  -- Without the server, there is nothing to be approved of.
  split at made
  · cases made
    rfl
  · split at made
    · cases made
    · cases made
      exact look_insert_server servers _ name apart path

/-- So does the switch of the shell. -/
theorem upsertDisableShellTool_kept {flag : Bool}
    (ok : upsertDisableShellTool doc = .ok (after, flag)) : Kept doc after := by
  obtain ⟨form, features, changed, entered, made, rfl⟩ := within_eq_ok ok
  intro path foreign
  cases path with
  | nil => cases foreign
  | cons key path =>
    -- Only below `features` is something changed, and there only one key.
    by_cases own : key = "features"
    · subst own
      rw [Foreign, if_neg (by decide), if_pos rfl] at foreign
      obtain ⟨name, first, apart⟩ := foreign
      cases path with
      | nil => cases first
      | cons _ path =>
        cases first
        refine look_within_ne entered (fun path => ?_) path
        split at made
        · cases made
          rfl
        · cases made
          exact look_insert_ne apart ..
    · exact look_insert_ne own ..

/-- So do all three of them, one after the other. -/
theorem prefer_kept {tools : List String} {bridge : List UInt8} {flag : Bool}
    (ok : prefer tools bridge doc = .ok (after, flag)) : Kept doc after := by
  -- Each of the three has to succeed before the next one is tried.
  rw [prefer] at ok
  cases server : upsertServer bridge doc with
  | error e =>
    rw [server] at ok
    cases ok
  | ok one =>
    cases approvals : upsertToolApprovals tools one.1 with
    | error e =>
      simp only [server, approvals] at ok
      cases ok
    | ok two =>
      cases shell : upsertDisableShellTool two.1 with
      | error e =>
        simp only [server, approvals, shell] at ok
        cases ok
      | ok three =>
        simp only [server, approvals, shell] at ok
        cases ok
        exact ((upsertServer_kept server).trans (upsertToolApprovals_kept approvals)).trans
          (upsertDisableShellTool_kept shell)

/-- An installation keeps all other settings. -/
theorem install_kept {bridge : List UInt8} {preferMcp : Bool}
    (ok : Codex.install bridge preferMcp doc = .ok (some after)) : Kept doc after := by
  rw [Codex.install] at ok
  cases made : if preferMcp then prefer mcpCliTools bridge doc else upsertServer bridge doc with
  | error e =>
    rw [made] at ok
    cases ok
  | ok result =>
    obtain ⟨last, flag⟩ := result
    rw [made] at ok
    -- Only a document that has been changed is there to be written.
    cases flag with
    | false => cases ok
    | true =>
      cases ok
      split at made
      · exact prefer_kept made
      · exact upsertServer_kept made

/-- No other server is in a table that is empty without ours. -/
theorem look_other_empty {servers : Table} (empty : (servers.remove serverName).isEmpty = true)
    {name : String} (apart : name ≠ serverName) (path : List String) :
    servers.look (name :: path) = none := by
  have nothing : servers.remove serverName = [] := List.isEmpty_iff.mp empty
  have same := look_remove_ne apart servers path
  rw [nothing] at same
  rw [← same]
  rfl

/-- And so does it to take the server out. -/
theorem removeServer_kept (doc : Table) : Kept doc (removeServer doc).1 := by
  rw [removeServer]
  cases table : (doc.get "mcp_servers").bind Item.asTable with
  | none => exact .refl doc
  | some both =>
    obtain ⟨form, servers⟩ := both
    -- The servers are those of the table that is there.
    have entered : doc.enter "mcp_servers" = some (form, servers) := by
      cases found : doc.get "mcp_servers" with
      | none =>
        rw [found] at table
        cases table
      | some item =>
        rw [found, Option.bind_some] at table
        rw [enter, found]
        exact table
    simp only
    split
    · -- The last server takes the whole table with it, in which there is no other one.
      rename_i last
      intro path foreign
      cases path with
      | nil => cases foreign
      | cons key path =>
        by_cases own : key = "mcp_servers"
        · subst own
          rw [Foreign, if_pos rfl] at foreign
          obtain ⟨name, first, apart⟩ := foreign
          cases path with
          | nil => cases first
          | cons _ path =>
            cases first
            rw [look_remove_self, ← enter_look entered (List.cons_ne_nil _ _),
              look_other_empty last.2 apart]
        · exact look_remove_ne own ..
    · exact kept_servers entered fun name apart path => look_remove_ne apart servers path

/-- Whatever a command writes keeps all other settings. -/
theorem edit_kept {command : Command} (ok : command.edit doc = .ok (some after)) :
    Kept doc after := by
  -- A trial run and a change that changes nothing write nothing.
  cases command with
  | install bridge preferMcp dryRun =>
    rw [Command.edit] at ok
    cases made : Codex.install bridge preferMcp doc with
    | error e =>
      rw [made] at ok
      cases ok
    | ok updated =>
      rw [made] at ok
      simp only [Except.ok.injEq] at ok
      split at ok
      · cases ok
      · exact install_kept (made.trans (congrArg _ ok))
  | uninstall dryRun =>
    simp only [Command.edit, Except.ok.injEq] at ok
    split at ok
    · cases ok
      exact removeServer_kept doc
    · cases ok

/-! What the file may come to hold. -/

/-- The text of a configuration; there is none in the beginning. -/
def contentText : Option (List UInt8) → Option (List Char)
  | none => some []
  | some bytes => decodeUtf8 bytes

/-- What a configuration says. -/
def settings (toml : TomlLibrary) (content : Option (List UInt8)) : Option Table :=
  match contentText content with
  | none => none
  | some text =>
    match toml.parse text with
    | .error _ => none
    | .ok doc => some doc

/-- What the library writes for a document that a command has changed, it reads as this document. -/
def TomlLibrary.Renders (toml : TomlLibrary) (command : Command) : Prop :=
  ∀ original doc updated, toml.parse original = .ok doc → command.edit doc = .ok (some updated) →
    ∃ again, toml.parse (toml.render original updated) = .ok again ∧ again.look = updated.look

/-- The configurations that come of one, when some commands change it one after the other. -/
inductive Made (toml : TomlLibrary) (commands : Command → Prop) (start : Option (List UInt8)) :
    Option (List UInt8) → Prop
  | start : Made toml commands start start
  | changed {content : Option (List UInt8)} {original updated : List Char} {command : Command}
      (made : Made toml commands start content) (known : commands command)
      (read : contentText content = some original)
      (update : command.update toml original = .ok (some updated)) :
      Made toml commands start (some (encodeUtf8 updated))

section Runs

variable {toml : TomlLibrary} {commands : Command → Prop} {start content : Option (List UInt8)}

/-- A change that is written is made to a document. -/
theorem update_eq_ok {original updated : List Char} {command : Command}
    (ok : command.update toml original = .ok (some updated)) :
    ∃ doc edited, toml.parse original = .ok doc ∧ command.edit doc = .ok (some edited) ∧
      updated = toml.render original edited := by
  rw [Command.update] at ok
  -- A text that does not parse, or a document that is left alone, is not written.
  cases parsed : toml.parse original with
  | error e =>
    rw [parsed] at ok
    cases ok
  | ok doc =>
    rw [parsed] at ok
    simp only at ok
    cases edited : command.edit doc with
    | error e =>
      rw [edited] at ok
      cases ok
    | ok result =>
      cases result with
      | none =>
        rw [edited] at ok
        cases ok
      | some result =>
        rw [edited] at ok
        cases ok
        exact ⟨doc, result, rfl, edited, rfl⟩

/-- However often it is changed, the other settings stay. -/
theorem Made.kept (renders : ∀ command, commands command → toml.Renders command)
    (made : Made toml commands start content) :
    content = start ∨ ∃ before now, settings toml start = some before ∧
      settings toml content = some now ∧ Kept before now := by
  induction made with
  | start => exact .inl rfl
  | @changed content original updated command made known read update ih =>
    right
    obtain ⟨doc, edited, parsed, edit, rfl⟩ := update_eq_ok update
    obtain ⟨again, reread, same⟩ := renders command known original doc edited parsed edit
    -- The text that is changed says what it is parsed as, and so does what is written for it.
    have said : settings toml content = some doc := by simp only [settings, read, parsed]
    have says_ : settings toml (some (encodeUtf8 (toml.render original edited))) = some again := by
      simp only [settings, contentText, decodeUtf8_encodeUtf8, reread]
    have kept : Kept doc again := fun path foreign => by
      rw [same]
      exact edit_kept edit path foreign
    rcases ih with unchanged | ⟨before, now, began, later, since⟩
    · -- It is the first change.
      rw [unchanged] at said
      exact ⟨doc, again, said, says_, kept⟩
    · rw [said] at later
      cases later
      exact ⟨before, again, began, says_, since.trans kept⟩

/-! The processes. -/

namespace ConfigFile

/-- No temporary file is opened while another one is being written. -/
def Apart (s : ConfigFile) : Action → Prop
  | .advance i => (s.processes[i]?.any fun p => p.phase.isCreating) = true →
      ∀ q ∈ s.processes, q.phase.isWriting = false
  | _ => True

/-- It can be decided whether there is such a file. -/
instance : ∀ (s : ConfigFile) (action : Action), Decidable (Apart s action)
  | _, .advance _ => inferInstanceAs (Decidable (_ → _))
  | _, .start _ | _, .write .. | _, .kill _ => isTrue trivial

/-- What a process in some phase knows, and what it has of the file it writes. -/
def Sound (toml : TomlLibrary) (commands : Command → Prop) (start : Option (List UInt8))
    (folder : Folder) : ConfigPhase → Prop
  | .reading file =>
    file < folder.fresh ∧ file ∉ folder.temp ∧
      Made toml commands start (some (folder.contents file))
  | .loaded original => ∃ content, Made toml commands start content ∧
      contentText content = some original
  | .creating updated => Made toml commands start (some updated)
  | .writing file updated written => folder.temp = some file ∧
      folder.contents file = updated.take written ∧ written ≤ updated.length ∧
        Made toml commands start (some updated)
  | _ => True

/-- What holds of the directory at any time. -/
structure Inv (toml : TomlLibrary) (commands : Command → Prop) (start : Option (List UInt8))
    (s : ConfigFile) : Prop where
  read : Made toml commands start s.folder.read
  known : ∀ p ∈ s.processes, commands p.command
  sound : ∀ (i : Nat) p, s.processes[i]? = some p → Sound toml commands start s.folder p.phase
  single : ∀ (i j : Nat) p q, s.processes[i]? = some p → s.processes[j]? = some q →
    p.phase.isWriting = true → q.phase.isWriting = true → i = j

variable {s after : ConfigFile} {folder : Folder}

/-- A process that does not write is not concerned by what is done to the temporary file. -/
theorem Sound.spared {before after : Folder} (spares : Folder.Spares before after)
    {phase : ConfigPhase} (sound : Sound toml commands start before phase)
    (idle : phase.isWriting = false) :
    Sound toml commands start after phase := by
  cases phase with
  | reading file =>
    -- The file that is read is the main one, or was it when it was opened.
    obtain ⟨used, away, made⟩ := sound
    refine ⟨Nat.lt_of_lt_of_le used spares.used, spares.temp file used away, ?_⟩
    rw [spares.contents file used away]
    exact made
  | writing file updated written => cases idle
  | loaded original => exact sound
  | creating updated => exact sound
  | started => trivial
  | looking => trivial
  | opening => trivial
  | done => trivial
  | failed error => trivial
  | killed => trivial

/-- A step of one process keeps what holds, unless it writes while another one does. -/
theorem Inv.moved (inv : Inv toml commands start s) {i : Nat} {p : ConfigProcess}
    (here : s.processes[i]? = some p) {phase : ConfigPhase} (spares : Folder.Spares s.folder folder)
    (read : Made toml commands start folder.read) (sound : Sound toml commands start folder phase)
    (others : ∀ (j : Nat) q, j ≠ i → s.processes[j]? = some q → q.phase.isWriting = true →
      folder = s.folder ∧ phase.isWriting = false) :
    Inv toml commands start ⟨folder, s.processes.set i { p with phase }⟩ := by
  refine ⟨read, fun q member => ?_, fun j q found => ?_, fun j k q r found other one two => ?_⟩
  · obtain ⟨j, found⟩ := List.mem_iff_getElem?.mp member
    rcases Population.moved found with ⟨_, rfl⟩ | ⟨_, old⟩
    · exact inv.known p (List.mem_of_getElem? here)
    · exact inv.known q (List.mem_of_getElem? old)
  · rcases Population.moved found with ⟨_, rfl⟩ | ⟨apart, old⟩
    · exact sound
    · have before := inv.sound j q old
      -- A process that writes sees the files as they were, any other one is spared.
      cases writes : q.phase.isWriting with
      | false => exact before.spared spares writes
      | true =>
        rw [(others j q apart old writes).1]
        exact before
  · rcases Population.moved found with ⟨rfl, rfl⟩ | ⟨apart, old⟩
    · rcases Population.moved other with ⟨rfl, _⟩ | ⟨away, older⟩
      · rfl
      · rw [(others k r away older two).2] at one
        cases one
    · rcases Population.moved other with ⟨rfl, rfl⟩ | ⟨away, older⟩
      · rw [(others j q apart old one).2] at two
        cases two
      · exact inv.single j k q r old older one two

/-- A step of a process that leaves all files alone. -/
theorem Inv.stays (inv : Inv toml commands start s) {i : Nat} {p : ConfigProcess}
    (here : s.processes[i]? = some p) {phase : ConfigPhase}
    (sound : Sound toml commands start s.folder phase) (idle : phase.isWriting = false) :
    Inv toml commands start ⟨s.folder, s.processes.set i { p with phase }⟩ :=
  inv.moved here (.refl s.folder) inv.read sound fun _ _ _ _ _ => ⟨rfl, idle⟩

/-- A process has a look at the file first, unless there is nothing to be taken out of it. -/
theorem next_started (toml : TomlLibrary) (folder : Folder) (command : Command) :
    next toml folder command .started = some (folder, .looking) ∨
      next toml folder command .started = some (folder, .done) := by
  -- Only without a file is there nothing to be taken out.
  cases command with
  | install bridge preferMcp dryRun => exact .inl rfl
  | uninstall dryRun =>
    rw [next]
    split
    · exact .inl rfl
    · exact .inr rfl

/-- A process that finds no file to read begins with the empty text. -/
theorem Inv.look (inv : Inv toml commands start s) {i : Nat} {p : ConfigProcess}
    (here : s.processes[i]? = some p) {phase : ConfigPhase}
    (moved : next toml s.folder p.command .looking = some (folder, phase)) :
    Inv toml commands start ⟨folder, s.processes.set i { p with phase }⟩ := by
  cases moved
  split
  · exact inv.stays here trivial rfl
  · -- There has never been a file, and the empty text is what there is in the beginning.
    rename_i absent
    refine inv.stays here ⟨none, ?_, rfl⟩ rfl
    have nothing : s.folder.read = none := by
      rw [Folder.read, Option.map_eq_none_iff]
      exact Option.not_isSome_iff_eq_none.mp absent
    rw [← nothing]
    exact inv.read

/-- The file that a process opens is the one that the main name has. -/
theorem Inv.opened (inv : Inv toml commands start s) {i : Nat} {p : ConfigProcess}
    (here : s.processes[i]? = some p) {phase : ConfigPhase}
    (moved : next toml s.folder p.command .opening = some (folder, phase)) :
    Inv toml commands start ⟨folder, s.processes.set i { p with phase }⟩ := by
  rw [next] at moved
  split at moved
  · rename_i file main
    cases moved
    refine inv.stays here ⟨s.folder.mainUsed file main, s.folder.apart file main, ?_⟩ rfl
    -- What is opened now is what the main name has now.
    have same : s.folder.read = some (s.folder.contents file) := by
      rw [Folder.read, main, Option.map_some]
    rw [← same]
    exact inv.read
  · cases moved
    exact inv.stays here trivial rfl

/-- What a process has read it makes its change to, unless it cannot be read or changed. -/
theorem Inv.changes (inv : Inv toml commands start s) {i : Nat} {p : ConfigProcess}
    (here : s.processes[i]? = some p) {original : List Char} {phase : ConfigPhase}
    (sound : Sound toml commands start s.folder (.loaded original))
    (moved : next toml s.folder p.command (.loaded original) = some (folder, phase)) :
    Inv toml commands start ⟨folder, s.processes.set i { p with phase }⟩ := by
  obtain ⟨content, made, read⟩ := sound
  rw [next] at moved
  -- A refused change ends the process, and so does one that changes nothing.
  split at moved
  · cases moved
    exact inv.stays here trivial rfl
  · cases moved
    exact inv.stays here trivial rfl
  · rename_i updated update
    cases moved
    have known := inv.known p (List.mem_of_getElem? here)
    exact inv.stays here (.changed made known read update) rfl

/-- A temporary file is opened while nobody else writes one. -/
theorem Inv.creates (inv : Inv toml commands start s) {i : Nat} {p : ConfigProcess}
    (here : s.processes[i]? = some p) {updated : List UInt8} {phase : ConfigPhase}
    (alone : ∀ q ∈ s.processes, q.phase.isWriting = false)
    (sound : Sound toml commands start s.folder (.creating updated))
    (moved : next toml s.folder p.command (.creating updated) = some (folder, phase)) :
    Inv toml commands start ⟨folder, s.processes.set i { p with phase }⟩ := by
  obtain ⟨empty, temp, main, spares⟩ := s.folder.create_spec
  simp only [next, Option.some.injEq, Prod.mk.injEq] at moved
  obtain ⟨rfl, rfl⟩ := moved
  refine inv.moved here spares ?_ ⟨temp, empty, Nat.zero_le _, sound⟩ fun j q _ found writes => ?_
  · rw [spares.read main]
    exact inv.read
  · -- Nobody else writes, so that nobody gets to see a file that is emptied.
    rw [alone q (List.mem_of_getElem? found)] at writes
    cases writes

/-- The temporary file gets the main name when it has been written to its end. -/
theorem Inv.renames (inv : Inv toml commands start s) {i : Nat} {p : ConfigProcess}
    (here : s.processes[i]? = some p) {file written : Nat} {updated : List UInt8}
    {phase : ConfigPhase} (now : p.phase = .writing file updated written)
    (moved : next toml s.folder p.command (.writing file updated written) =
      some (folder, phase)) :
    Inv toml commands start ⟨folder, s.processes.set i { p with phase }⟩ := by
  have sound := inv.sound i p here
  rw [now] at sound
  obtain ⟨temp, contents, inside, made⟩ := sound
  rw [next] at moved
  split at moved
  · cases moved
  · rename_i ended
    -- What gets the main name has been written to its end.
    have whole : s.folder.contents file = updated := by
      rw [contents, List.take_of_length_le (Nat.not_lt.mp ended)]
    have alone (j : Nat) (q : ConfigProcess) (away : j ≠ i) (found : s.processes[j]? = some q)
        (writes : q.phase.isWriting = true) : False :=
      away (inv.single j i q p found here writes (by rw [now]; rfl))
    split at moved
    · rename_i renamed
      cases moved
      obtain ⟨other, named, read, spares⟩ := Folder.rename_eq_some renamed
      rw [temp] at named
      cases named
      rw [whole] at read
      refine inv.moved here spares ?_ trivial fun j q away found writes =>
        (alone j q away found writes).elim
      rw [read]
      exact made
    · cases moved
      exact inv.stays here trivial rfl

/-- A process goes on as it may. -/
theorem Inv.advance (inv : Inv toml commands start s) {i : Nat} {p : ConfigProcess}
    (here : s.processes[i]? = some p) (apart : Apart s (.advance i)) {phase : ConfigPhase}
    (moved : next toml s.folder p.command p.phase = some (folder, phase)) :
    Inv toml commands start ⟨folder, s.processes.set i { p with phase }⟩ := by
  have sound := inv.sound i p here
  -- What a process knows in its phase is what its next step needs.
  cases now : p.phase with
  | started =>
    rw [now] at moved
    rcases next_started toml s.folder p.command with first | first
    · rw [first] at moved
      cases moved
      exact inv.stays here trivial rfl
    · rw [first] at moved
      cases moved
      exact inv.stays here trivial rfl
  | looking =>
    rw [now] at moved
    exact inv.look here moved
  | opening =>
    rw [now] at moved
    exact inv.opened here moved
  | reading file =>
    rw [now] at moved sound
    rw [next] at moved
    split at moved
    · rename_i original decoded
      cases moved
      exact inv.stays here ⟨_, sound.2.2, decoded⟩ rfl
    · cases moved
      exact inv.stays here trivial rfl
  | loaded original =>
    rw [now] at moved sound
    exact inv.changes here sound moved
  | creating updated =>
    rw [now] at moved sound
    exact inv.creates here (apart (by rw [here, Option.any_some, now]; rfl)) sound moved
  | writing file updated written =>
    rw [now] at moved
    exact inv.renames here now moved
  | done => rw [now] at moved; cases moved
  | failed error => rw [now] at moved; cases moved
  | killed => rw [now] at moved; cases moved

/-- What is written goes on where it has ended. -/
theorem Inv.write (inv : Inv toml commands start s) {i count : Nat} {p : ConfigProcess}
    (here : s.processes[i]? = some p) {phase : ConfigPhase}
    (moved : nextWrite s.folder count p.phase = some (folder, phase)) :
    Inv toml commands start ⟨folder, s.processes.set i { p with phase }⟩ := by
  have sound := inv.sound i p here
  unfold nextWrite at moved
  split at moved
  · rename_i file updated written now
    rw [now] at sound
    obtain ⟨temp, contents, inside, made⟩ := sound
    split at moved
    · rename_i fits
      cases moved
      have spares := Folder.write_spares temp written ((updated.drop written).take count)
      refine inv.moved here spares ?_ ⟨temp, ?_, fits.2, made⟩ fun j q away found writes => ?_
      · -- The main name is not that of the file that is written.
        rw [spares.read rfl]
        exact inv.read
      · rw [Folder.write_contents, contents, Folder.overwrite_take updated inside]
      · exact absurd (inv.single j i q p found here writes (by rw [now]; rfl)) away
    · cases moved
  · -- No other process has a file that is open for writing.
    cases moved

/-- A process that starts has done nothing so far. -/
theorem Inv.joined (inv : Inv toml commands start s) {command : Command}
    (known : commands command) :
    Inv toml commands start { s with processes := s.processes ++ [⟨command, .started⟩] } := by
  -- The new process has the last number, and it neither knows nor writes anything.
  refine ⟨inv.read, fun q member => ?_, fun j q found => ?_, fun j k q r found other one two => ?_⟩
  · rcases List.mem_append.mp member with old | new
    · exact inv.known q old
    · rw [List.mem_singleton.mp new]
      exact known
  · rcases Population.joined found with ⟨_, rfl⟩ | ⟨_, old⟩
    · trivial
    · exact inv.sound j q old
  · rcases Population.joined found with ⟨_, rfl⟩ | ⟨_, old⟩
    · cases one
    · rcases Population.joined other with ⟨_, rfl⟩ | ⟨_, older⟩
      · cases two
      · exact inv.single j k q r old older one two

/-- Every step keeps what holds of the directory. -/
theorem Inv.step (inv : Inv toml commands start s) (action : Action) (apart : Apart s action)
    (known : ∀ command, action = .start command → commands command)
    (taken : step toml s action = some after) : Inv toml commands start after := by
  -- A kill moves no file, and the other steps have lemmas of their own.
  cases action with
  | start command =>
    cases taken
    exact inv.joined (known command rfl)
  | advance i =>
    obtain ⟨p, here, taken⟩ := Option.bind_eq_some_iff.mp taken
    obtain ⟨⟨folder, phase⟩, moved, rfl⟩ := Option.map_eq_some_iff.mp taken
    exact inv.advance here apart moved
  | write i count =>
    obtain ⟨p, here, taken⟩ := Option.bind_eq_some_iff.mp taken
    obtain ⟨⟨folder, phase⟩, moved, rfl⟩ := Option.map_eq_some_iff.mp taken
    exact inv.write here moved
  | kill i =>
    obtain ⟨p, here, rfl⟩ := Option.map_eq_some_iff.mp taken
    exact inv.stays here trivial rfl

/-- In every run, the file holds what commands have made of what it was in the beginning. -/
theorem run_made {actions : List Action} (idle : s.processes = [])
    (known : ∀ command, .start command ∈ actions → commands command)
    (apart : Along (step toml) Apart s actions) (ran : run (step toml) s actions = some after) :
    Made toml commands s.folder.read after.folder.read := by
  have began : Inv toml commands s.folder.read s := by
    refine ⟨.start, fun p member => ?_, fun i p here => ?_, fun i j p q here => ?_⟩
    · rw [idle] at member
      cases member
    · rw [idle] at here
      cases here
    · rw [idle] at here
      cases here
  -- Each command that is started is one of the run.
  have started : Along (step toml)
      (fun _ action => ∀ command, action = .start command → commands command) s actions :=
    .of_forall fun action member _ command same => known command (same ▸ member)
  exact (run_invariant_along (Inv toml commands s.folder.read)
    (fun s action next inv guard taken => inv.step action guard.1 guard.2 taken) began
    (apart.and started) ran).read

end ConfigFile

end Runs

/--
However installations follow each other, and wherever they are killed, the configuration is the old
one, or a whole one that has all other settings of the old one.
-/
theorem configuration_survives (toml : TomlLibrary) (s after : ConfigFile)
    (actions : List ConfigFile.Action) (idle : s.processes = [])
    (renders : ∀ command, .start command ∈ actions → toml.Renders command)
    (apart : Along (ConfigFile.step toml) ConfigFile.Apart s actions)
    (ran : run (ConfigFile.step toml) s actions = some after) :
    after.folder.read = s.folder.read ∨ ∃ before now, settings toml s.folder.read = some before ∧
      settings toml after.folder.read = some now ∧ Kept before now :=
  (ConfigFile.run_made idle (fun _ => id) apart ran).kept renders

/-- A configuration in which only a model is chosen. -/
def chosen : List Char := "model = \"o3\"\n".toList

/-- The same configuration, and a server. -/
def withServer : List Char :=
  chosen ++ "\n[mcp_servers]\n\n[mcp_servers.mcp-cli]\ncommand = \"/b\"\nargs = []\n".toList

/-- What the first configuration says. -/
def chosenTable : Table := [("model", stringItem "o3".toList)]

/-- What the second one says. -/
def withServerTable : Table :=
  [("model", stringItem "o3".toList), ("mcp_servers", .table .standard
    [(serverName, .table .standard (newServer "/b".toList))])]

/-- A library that knows these two texts. -/
def twoTexts : TomlLibrary where
  parse text :=
    if text = chosen then .ok chosenTable
    else if text = withServer then .ok withServerTable
    else .error "parsing"
  render original _ := if original = chosen then withServer else original

/-- The installation of the server. -/
def installServer : Command := .install [0x2F, 0x62] false false

/-- A directory with a configuration, and with what is left of an installation. -/
def leftOver : ConfigFile where
  folder :=
    { contents := fun file => if file = 0 then encodeUtf8 chosen else [0x5B]
      main := some 0
      temp := some 1
      fresh := 2
      mainUsed := by rintro _ ⟨⟩; decide
      tempUsed := by rintro _ ⟨⟩; decide
      apart := by rintro _ ⟨⟩ ⟨⟩ }
  processes := []

open ConfigFile.Action in
/-- An installation that is killed as it writes, and another one that comes to its end. -/
def killedOnce : List ConfigFile.Action :=
  [start installServer, advance 0, advance 0, advance 0, start installServer, advance 0, advance 0,
    advance 0, write 0 20, advance 1, advance 1, kill 0, advance 1, advance 1, advance 1, advance 1,
    write 1 30, write 1 46, advance 1]

/-- The server is installed once, and there is nothing to do afterwards. -/
theorem twoTexts_renders : twoTexts.Renders installServer := by
  intro original doc updated parsed edit
  -- The library reads two texts only, and only one of them is changed.
  by_cases first : original = chosen
  · subst first
    cases parsed
    cases edit
    exact ⟨withServerTable, rfl, rfl⟩
  · by_cases second : original = withServer
    · subst second
      cases parsed
      cases edit
    · have failed : twoTexts.parse original = .error "parsing" := by
        simp only [twoTexts, if_neg first, if_neg second]
      rw [failed] at parsed
      cases parsed

/-- The second installation does not find anything of the first one, and the model stays. -/
theorem configuration_survives_killed :
    ∃ after, run (ConfigFile.step twoTexts) leftOver killedOnce = some after ∧
      after.folder.read = some (encodeUtf8 withServer) ∧
        ∃ before now, settings twoTexts leftOver.folder.read = some before ∧
          settings twoTexts after.folder.read = some now ∧ Kept before now := by
  have ends : (run (ConfigFile.step twoTexts) leftOver killedOnce).isSome = true := by
    decide +kernel
  have said : (run (ConfigFile.step twoTexts) leftOver killedOnce).bind (·.folder.read) =
      some (encodeUtf8 withServer) := by
    decide +kernel
  obtain ⟨after, ran⟩ := Option.isSome_iff_exists.mp ends
  rw [ran, Option.bind_some] at said
  -- Both commands of the run are the same one.
  have renders (command : Command) (member : .start command ∈ killedOnce) :
      twoTexts.Renders command := by
    have same : command = installServer := by simpa [killedOnce] using member
    rw [same]
    exact twoTexts_renders
  refine ⟨after, ran, said, ?_⟩
  rcases configuration_survives twoTexts leftOver after killedOnce rfl renders (by decide +kernel)
    ran with same | kept
  · rw [said] at same
    exact absurd same (by decide +kernel)
  · exact kept

open ConfigFile.Action in
/-- When a second one opens the temporary file while the first one has it, the first one puts an
empty configuration in the place of the old one. -/
example : (run (ConfigFile.step twoTexts) leftOver
    [start installServer, start installServer, advance 0, advance 0, advance 0, advance 0,
      advance 0, advance 1, advance 1, advance 1, advance 1, advance 1, advance 0, write 0 76,
      advance 1, advance 0]).bind (·.folder.read) = some [] := by
  decide +kernel

end McpCli.Codex
