import Mathlib.Data.List.Lex
import Mathlib.Data.String.Basic
import McpCli.Listing.Tally
import McpCli.Protocol.Messages
import McpCli.Text.Replace

/-! The roll-ups of `git.status` and `fs.scan` by directories. -/

namespace McpCli

open Listing

/-- Whether a flag is among those of a status. -/
def hasFlag (flag : String) (status : List Char) : Bool := Text.contains flag.toList status

/-- The class of a status: the most actionable one of its flags. -/
def primaryStatusClass (status : List Char) : String :=
  if hasFlag "conflicted" status then "conflicted"
  else if hasFlag "deleted" status then "deleted"
  else if hasFlag "renamed" status then "renamed"
  else if hasFlag "typechange" status then "typechange"
  else if hasFlag "modified" status then "modified"
  else if hasFlag "wt_new" status || hasFlag "index_new" status then "untracked"
  else if hasFlag "ignored" status then "ignored"
  else "clean"

/-- What stands between separators and is no component of a path. -/
def isVoid (segment : List Char) : Bool := segment = [] || segment = ['.']

/-- The path without its last component, if it has any besides the root. -/
def parentPath (path : List Char) : Option (List Char) :=
  -- A root, or a dot in front, is a component of its own.
  let (front, body) :=
    match path with
    | '/' :: rest => (['/'], rest)
    | ['.'] => (['.'], [])
    | '.' :: '/' :: rest => (['.'], '/' :: rest)
    | _ => ([], path)
  match (body.splitOn '/').reverse.dropWhile isVoid with
  | _ :: before => some (front ++ ['/'].intercalate (before.dropWhile isVoid).reverse)
  | [] => if front = ['.'] then some [] else none

/-- The parent directory of a path, with slashes for backslashes, and a dot for the top level. -/
def parentDirStr (path : List Char) : List Char :=
  match parentPath (path.map fun c => if c = '\\' then '/' else c) with
  | some parent => if parent = [] then ['.'] else parent
  | none => ['.']

/-- The name of the row in which the other directories are summed. -/
def otherDir : List Char := "(other)".toList

/-- The counts by class and directory, and how many entries were counted. -/
structure StatusCounts where
  byClass : List (String × List (List Char × Nat))
  total : Nat

/-- Count an entry, unless it is clean. -/
def countEntry (counts : StatusCounts) (entry : GitStatusEntry) : StatusCounts :=
  let statusClass := primaryStatusClass entry.status
  if statusClass = "clean" then counts
  else
    let dir := parentDirStr entry.path
    { byClass := upsert statusClass
        (fun dirs => upsert dir (fun count => count.getD 0 + 1) (dirs.getD [])) counts.byClass
      total := counts.total + 1 }

/-- The bucket of a class, with so many rows for directories. -/
def classBucket (topDirsPerClass : Nat) (statusClass : String) (dirs : List (List Char × Nat)) :
    GitStatusClassBucket :=
  -- The heaviest directory comes first, and of equal ones the first by name.
  let sorted := rank dirs
  let count := (sorted.map Prod.snd).sum
  let (head, tail) :=
    if topDirsPerClass < sorted.length then sorted.splitAt topDirsPerClass else (sorted, [])
  let byDir := head.map fun row => { dir := row.1, count := row.2 : GitStatusDirCount }
  let byDir :=
    if tail = [] then byDir
    else byDir ++ [{ dir := otherDir, count := (tail.map Prod.snd).sum }]
  { statusClass, count, byDir }

/-- The roll-up of `git.status` by class and directory. -/
def gitStatusCompact (entries : List GitStatusEntry) (topDirsPerClass : Nat) : GitStatusCompact :=
  let counts := entries.foldl countEntry { byClass := [], total := 0 }
  let buckets := counts.byClass.map fun dirs => classBucket topDirsPerClass dirs.1 dirs.2
  { byClass := sortByKey (fun bucket => weight (bucket.statusClass, bucket.count)) buckets
    total := counts.total }

/-- The roll-up of `fs.scan` by directory. -/
def fsScanCompact (files : List (List Char)) (topDirs : Nat) : FsScanCompact :=
  let byDir := files.foldl
    (fun byDir file => upsert (parentDirStr file) (fun count => count.getD 0 + 1) byDir) []
  let rows := (rank byDir).map fun row => { dir := row.1, count := row.2 : FsScanDirBucket }
  let rows :=
    if topDirs < rows.length then
      let overflow := ((rows.drop topDirs).map FsScanDirBucket.count).sum
      rows.take topDirs ++ [{ dir := otherDir, count := overflow }]
    else rows
  { byDir := rows, total := files.length }

end McpCli
