import Mathlib.Data.List.Lex
import Mathlib.Data.String.Basic
import McpCli.Daemon.SearchRace
import McpCli.Listing.Extent

/-! The roll-up of `search.grep` by files, which is made of a result on its way out. -/

namespace McpCli

open Listing

/-- The hits of one file: how many there are, and the lines of the first and the last one. -/
structure SearchFileBucket where
  path : List Char
  matchCount : Nat
  firstLine : Nat
  lastLine : Nat
  deriving DecidableEq, Repr

/-- The hits file by file. -/
structure SearchGrepCompact where
  buckets : List SearchFileBucket
  totalMatches : Nat
  deriving DecidableEq, Repr

/-- The path of a hit as it is written. -/
def SearchHit.pathText (hit : SearchHit) : List Char :=
  ['/'].intercalate (hit.path.map String.toList)

/-- The roll-up of some hits by their files. -/
def searchGrepCompact (hits : List SearchHit) : SearchGrepCompact :=
  let byPath := group SearchHit.pathText (fun old hit => widen old hit.lineNumber) hits
  let buckets := byPath.map fun entry =>
    { path := entry.1, matchCount := entry.2.1, firstLine := entry.2.2.1,
      lastLine := entry.2.2.2 : SearchFileBucket }
  { buckets, totalMatches := (buckets.map SearchFileBucket.matchCount).sum }

/-- The answer of `search.grep`, with its hits or with their roll-up. -/
structure SearchGrepAnswer where
  hits : List SearchHit
  truncated : Bool
  compact : Option SearchGrepCompact
  deriving DecidableEq, Repr

/-- What is answered of a result that was computed or found in the cache. -/
def finalizeSearch (raw : SearchGrepResult) (compactRequested : Bool) : SearchGrepAnswer :=
  if compactRequested then
    { hits := [], truncated := raw.truncated, compact := some (searchGrepCompact raw.hits) }
  else { hits := raw.hits, truncated := raw.truncated, compact := none }

end McpCli
