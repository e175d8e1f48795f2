import McpCli.Daemon.Watcher

/-! The parse cache, with any number of lookups, evictions and changes of files at the same time. -/

namespace McpCli

/-- The languages that can be parsed. -/
inductive Language where
  | rust
  | python
  | c
  | cpp
  | typeScript
  | tsx
  | go
  deriving DecidableEq, Repr

/-- What stands behind the last dot of a name, unless that is its first character. -/
def extension (name : List Char) : Option (List Char) :=
  let ext := (name.reverse.takeWhile fun c => c ≠ '.').reverse
  if ext.length + 1 < name.length then some ext else none

/-- The language of a file, by the extension of its name. -/
def Language.detect (path : AbsPath) : Option Language := do
  let name ← path.getLast?
  let ext ← extension name.toList
  match String.ofList (ext.map Char.toLower) with
  | "rs" => some .rust
  | "py" | "pyi" => some .python
  | "c" | "h" => some .c
  | "cc" | "cpp" | "cxx" | "hpp" | "hh" | "hxx" => some .cpp
  | "ts" | "mts" | "cts" => some .typeScript
  | "tsx" => some .tsx
  | "go" => some .go
  | _ => none

/-- A file as it is at a moment. -/
structure SourceFile where
  /-- When it was modified, if that can be told and is not before the epoch. -/
  modified : Option Nat
  content : List UInt8
  deriving DecidableEq, Repr

/-- What a file is known by. -/
structure FileStamp where
  mtimeNs : Nat
  size : Nat
  deriving DecidableEq, Repr

/-- The stamp of a file, when it has a time of modification. -/
def FileStamp.of (file : SourceFile) : Option FileStamp :=
  file.modified.map fun mtimeNs => { mtimeNs, size := file.content.length }

/-- The third-party parser. -/
structure TreeSitter (Tree : Type) where
  parse : Language → List UInt8 → Except String Tree

/-- What a lookup returns: the tree, with the bytes that it was parsed from. -/
structure ParsedFile (Tree : Type) where
  language : Language
  source : List UInt8
  tree : Tree

/-- What is kept for a path. -/
structure ParseEntry (Tree : Type) where
  stamp : FileStamp
  parsed : ParsedFile Tree

namespace ParseCache

variable {Tree : Type}

/-- Look for a parse of a file with this stamp; one of another stamp is dropped. -/
def lookup (cache : ParseCache (ParseEntry Tree)) (path : AbsPath) (stamp : FileStamp)
    (language : Language) : Option (ParsedFile Tree) × ParseCache (ParseEntry Tree) :=
  match cache.entries.find? fun e => e.1 = path with
  | none => (none, cache)
  | some (_, entry) =>
    let rest := cache.entries.eraseP fun e => e.1 = path
    if entry.stamp = stamp ∧ entry.parsed.language = language then
      -- The entry is the one that was used last.
      (some entry.parsed, { cache with entries := rest ++ [(path, entry)] })
    else (none, { cache with entries := rest })

/-- Keep a parse, and drop the oldest ones while there are too many. -/
def insert (cache : ParseCache (ParseEntry Tree)) (path : AbsPath) (entry : ParseEntry Tree) :
    ParseCache (ParseEntry Tree) :=
  { cache with
    entries := cache.entries.drop (cache.entries.length - (cache.capacity - 1)) ++
      [(path, entry)] }

end ParseCache

/-- Where a call of `get_or_parse` is. -/
inductive ParsePhase (Tree : Type) where
  | starting
  | looking (stamp : FileStamp) (language : Language)
  | reading (stamp : FileStamp) (language : Language)
  | inserting (stamp : FileStamp) (parsed : ParsedFile Tree)
  /-- It has returned, when the file had been changed so often. -/
  | returned (result : Except String (Option (ParsedFile Tree))) (until_ : Nat)

/-- A call of `get_or_parse`. -/
structure ParseCall (Tree : Type) where
  path : AbsPath
  /-- How often the file had been changed when the call began. -/
  since : Nat
  phase : ParsePhase Tree

/-- The cache, the calls on it and the files. -/
structure Parses (Tree : Type) where
  cache : ParseCache (ParseEntry Tree)
  calls : List (ParseCall Tree)
  /-- What each file has been so far, the present one last. -/
  history : AbsPath → List (Option SourceFile)

namespace Parses

variable {Tree : Type} (treeSitter : TreeSitter Tree)

/-- An empty cache, and the files that there are. -/
def start (capacity : Nat) (disk : Disk SourceFile) : Parses Tree where
  cache := { capacity, entries := [] }
  calls := []
  history := fun path => [disk path]

/-- The number of changes of a file so far. -/
def now (s : Parses Tree) (path : AbsPath) : Nat := (s.history path).length - 1

/-- A file as it is now. -/
def file (s : Parses Tree) (path : AbsPath) : Option SourceFile := (s.history path).getLast?.join

/-- The next thing that happens. -/
inductive Action where
  /-- A file is created, changed or removed. -/
  | modify (path : AbsPath) (file : Option SourceFile)
  | evict (path : AbsPath)
  | call (path : AbsPath)
  | stat (i : Nat)
  /-- The cache is looked into, under its lock. -/
  | lookup (i : Nat)
  /-- The file is read and parsed, without the lock. -/
  | read (i : Nat)
  /-- The parse is kept, under the lock. -/
  | insert (i : Nat)
  /-- The operating system reports an error, instead of the file's data or contents. -/
  | fail (i : Nat) (message : String)

/-- The path as it is shown. -/
def display (path : AbsPath) : String := "/" ++ "/".intercalate path

/-- A call goes on, and leaves the cache like this. -/
def callStep (s : Parses Tree) (i : Nat) (call : ParseCall Tree) (phase : ParsePhase Tree)
    (cache : ParseCache (ParseEntry Tree)) : Parses Tree :=
  { s with cache, calls := s.calls.set i { call with phase } }

/-- Take one step, if it is possible. -/
def step (s : Parses Tree) : Action → Option (Parses Tree)
  | .modify path file => some { s with
      history := Function.update s.history path (s.history path ++ [file]) }
  | .evict path => some { s with cache := s.cache.evict path }
  | .call path => some { s with
      calls := s.calls ++ [{ path, since := s.now path, phase := .starting }] }
  | .stat i =>
    match s.calls[i]? with
    | some call =>
      match call.phase with
      | .starting =>
        match Language.detect call.path with
        -- A file of no known language is not looked at.
        | none => some (s.callStep i call (.returned (.ok none) (s.now call.path)) s.cache)
        | some language =>
          match (s.file call.path).bind FileStamp.of with
          -- There is no file, or it has no time of modification.
          | none => some (s.callStep i call
              (.returned (.error s!"stat {display call.path}") (s.now call.path)) s.cache)
          | some stamp => some (s.callStep i call (.looking stamp language) s.cache)
      | _ => none
    | none => none
  | .lookup i =>
    match s.calls[i]? with
    | some call =>
      match call.phase with
      | .looking stamp language =>
        -- A cache without room is not asked.
        if s.cache.capacity = 0 then some (s.callStep i call (.reading stamp language) s.cache)
        else
          match s.cache.lookup call.path stamp language with
          | (some parsed, cache) =>
            some (s.callStep i call (.returned (.ok (some parsed)) (s.now call.path)) cache)
          | (none, cache) => some (s.callStep i call (.reading stamp language) cache)
      | _ => none
    | none => none
  | .read i =>
    match s.calls[i]? with
    | some call =>
      match call.phase with
      | .reading stamp language =>
        match s.file call.path with
        | none => none
        | some file =>
          -- The file may have changed since the stamp was taken.
          match treeSitter.parse language file.content with
          | .error e => some (s.callStep i call (.returned (.error e) (s.now call.path)) s.cache)
          | .ok tree => some (s.callStep i call
              (.inserting stamp { language, source := file.content, tree }) s.cache)
      | _ => none
    | none => none
  | .insert i =>
    match s.calls[i]? with
    | some call =>
      match call.phase with
      | .inserting stamp parsed =>
        -- The entry gets the stamp that was taken at first, whatever the file has become.
        let cache :=
          if s.cache.capacity = 0 then s.cache
          else s.cache.insert call.path { stamp, parsed }
        some (s.callStep i call (.returned (.ok (some parsed)) (s.now call.path)) cache)
      | _ => none
    | none => none
  | .fail i message =>
    match s.calls[i]? with
    | some call =>
      match call.phase with
      -- Only the calls that touch the file system can fail for other reasons.
      | .starting | .reading _ _ =>
        some (s.callStep i call (.returned (.error message) (s.now call.path)) s.cache)
      | _ => none
    | none => none

end Parses

end McpCli
