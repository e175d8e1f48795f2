import McpCli.Daemon.ParseCache
import McpCli.Transition.Population
import McpCli.Transition.Run

/-! Every lookup in the parse cache returns what the file was while the lookup was under way. -/

namespace McpCli

open Transition

/-- After so many changes the file had this stamp. -/
def StampedAt (history : List (Option SourceFile)) (t : Nat) (stamp : FileStamp) : Prop :=
  ∃ file, history[t]? = some (some file) ∧ FileStamp.of file = some stamp

/-- After so many changes the file had this content. -/
def ContentAt (history : List (Option SourceFile)) (t : Nat) (content : List UInt8) : Prop :=
  ∃ file, history[t]? = some (some file) ∧ file.content = content

/-- What the file was before stays so when it is changed. -/
theorem getElem?_grown {history : List (Option SourceFile)} {t : Nat} {file : Option SourceFile}
    (found : history[t]? = some file) (next : Option SourceFile) :
    (history ++ [next])[t]? = some file := by
  obtain ⟨bound, _⟩ := List.getElem?_eq_some_iff.mp found
  rw [List.getElem?_append_left bound, found]

/-- So do its stamps. -/
theorem StampedAt.grown {history : List (Option SourceFile)} {t : Nat} {stamp : FileStamp}
    (stamped : StampedAt history t stamp) (next : Option SourceFile) :
    StampedAt (history ++ [next]) t stamp := by
  obtain ⟨file, found, same⟩ := stamped
  exact ⟨file, getElem?_grown found next, same⟩

/-- And its contents. -/
theorem ContentAt.grown {history : List (Option SourceFile)} {t : Nat} {content : List UInt8}
    (held : ContentAt history t content) (next : Option SourceFile) :
    ContentAt (history ++ [next]) t content := by
  obtain ⟨file, found, same⟩ := held
  exact ⟨file, getElem?_grown found next, same⟩

/-- The file had the stamp after a change that is counted. -/
theorem StampedAt.bound {history : List (Option SourceFile)} {t : Nat} {stamp : FileStamp}
    (stamped : StampedAt history t stamp) : t < history.length := by
  obtain ⟨file, found, _⟩ := stamped
  exact (List.getElem?_eq_some_iff.mp found).1

/-- And the content likewise. -/
theorem ContentAt.bound {history : List (Option SourceFile)} {t : Nat} {content : List UInt8}
    (held : ContentAt history t content) : t < history.length := by
  obtain ⟨file, found, _⟩ := held
  exact (List.getElem?_eq_some_iff.mp found).1

namespace ParseCache

variable {Tree : Type}

/-- What is found is in the cache, under the path, the stamp and the language asked for. -/
theorem lookup_hit {cache next : ParseCache (ParseEntry Tree)} {path : AbsPath} {stamp : FileStamp}
    {language : Language} {parsed : ParsedFile Tree}
    (found : cache.lookup path stamp language = (some parsed, next)) :
    (path, { stamp, parsed }) ∈ cache.entries ∧ ∀ e ∈ next.entries, e ∈ cache.entries := by
  -- What is found is moved to the end of the list, and nothing else is changed.
  simp only [lookup] at found
  split at found
  · cases found
  · rename_i own entry here
    have member := List.mem_of_find?_eq_some here
    obtain rfl : own = path := by simpa using List.find?_some here
    split at found
    · rename_i same
      obtain ⟨rfl, _⟩ := same
      cases found
      refine ⟨member, ?_⟩
      intro e kept
      rcases List.mem_append.mp kept with old | last
      · exact List.mem_of_mem_eraseP old
      · rw [List.mem_singleton.mp last]
        exact member
    · cases found

/-- When nothing is found, nothing is added either. -/
theorem lookup_miss {cache next : ParseCache (ParseEntry Tree)} {path : AbsPath} {stamp : FileStamp}
    {language : Language} (missed : cache.lookup path stamp language = (none, next)) :
    ∀ e ∈ next.entries, e ∈ cache.entries := by
  -- An entry with another stamp is thrown out, and otherwise the cache stays as it is.
  simp only [lookup] at missed
  split at missed
  · cases missed
    exact fun e kept => kept
  · split at missed
    · cases missed
    · cases missed
      exact fun e kept => List.mem_of_mem_eraseP kept

/-- What is in the cache after an insertion was there before, or is what was inserted. -/
theorem mem_insert {cache : ParseCache (ParseEntry Tree)} {path : AbsPath}
    {entry : ParseEntry Tree} {e : AbsPath × ParseEntry Tree}
    (kept : e ∈ (cache.insert path entry).entries) : e ∈ cache.entries ∨ e = (path, entry) := by
  rcases List.mem_append.mp kept with old | own
  · exact .inl (List.mem_of_mem_drop old)
  · exact .inr (List.mem_singleton.mp own)

/-- An eviction adds nothing. -/
theorem mem_evict {cache : ParseCache (ParseEntry Tree)} {path : AbsPath}
    {e : AbsPath × ParseEntry Tree} (kept : e ∈ (cache.evict path).entries) : e ∈ cache.entries := by
  unfold evict at kept
  split at kept
  · exact kept
  · exact List.mem_of_mem_eraseP kept

end ParseCache

namespace Parses

variable {Tree : Type} (treeSitter : TreeSitter Tree)

/-- How a call goes on, by what it finds. -/
inductive Moves (s : Parses Tree) (call : ParseCall Tree) :
    ParsePhase Tree → ParseCache (ParseEntry Tree) → Prop where
  | unsupported : Moves s call (.returned (.ok none) (s.now call.path)) s.cache
  | failed {e} : Moves s call (.returned (.error e) (s.now call.path)) s.cache
  | stat {stamp language file} (detected : Language.detect call.path = some language)
      (here : s.file call.path = some file) (stamped : FileStamp.of file = some stamp) :
      Moves s call (.looking stamp language) s.cache
  | hit {stamp language parsed cache} (phase : call.phase = .looking stamp language)
      (found : s.cache.lookup call.path stamp language = (some parsed, cache)) :
      Moves s call (.returned (.ok (some parsed)) (s.now call.path)) cache
  | miss {stamp language cache} (phase : call.phase = .looking stamp language)
      (kept : ∀ e ∈ cache.entries, e ∈ s.cache.entries) :
      Moves s call (.reading stamp language) cache
  | read {stamp language file tree} (phase : call.phase = .reading stamp language)
      (here : s.file call.path = some file)
      (parsed : treeSitter.parse language file.content = .ok tree) :
      Moves s call (.inserting stamp { language, source := file.content, tree }) s.cache
  | insert {stamp parsed cache} (phase : call.phase = .inserting stamp parsed)
      (kept : ∀ e ∈ cache.entries, e ∈ s.cache.entries ∨ e = (call.path, { stamp, parsed })) :
      Moves s call (.returned (.ok (some parsed)) (s.now call.path)) cache

/-- A step, by what happens in it. -/
inductive Step (s : Parses Tree) : Action → Parses Tree → Prop where
  | modify (path file) : Step s (.modify path file)
      { s with history := Function.update s.history path (s.history path ++ [file]) }
  | evict (path) : Step s (.evict path) { s with cache := s.cache.evict path }
  | call (path) : Step s (.call path)
      { s with calls := s.calls ++ [{ path, since := s.now path, phase := .starting }] }
  | moves {action i call phase cache} (here : s.calls[i]? = some call)
      (moves : Moves treeSitter s call phase cache) :
      Step s action (s.callStep i call phase cache)

variable {treeSitter}

/-- Nothing else happens. -/
theorem step_spec {s next : Parses Tree} {action : Action}
    (taken : s.step treeSitter action = some next) : Step treeSitter s action next := by
  -- Each phase of a call does one thing, whose outcome decides what comes next.
  cases action with
  | modify path file =>
    cases taken
    exact .modify path file
  | evict path =>
    cases taken
    exact .evict path
  | call path =>
    cases taken
    exact .call path
  | stat i =>
    simp only [step] at taken
    cases here : s.calls[i]? with
    | none => simp [here] at taken
    | some call =>
      simp only [here] at taken
      split at taken
      · cases detected : Language.detect call.path with
        | none =>
          simp only [detected, Option.some.injEq] at taken
          subst taken
          exact .moves here .unsupported
        | some language =>
          simp only [detected] at taken
          cases stamped : (s.file call.path).bind FileStamp.of with
          | none =>
            simp only [stamped, Option.some.injEq] at taken
            subst taken
            exact .moves here .failed
          | some stamp =>
            simp only [stamped, Option.some.injEq] at taken
            subst taken
            obtain ⟨file, present, same⟩ := Option.bind_eq_some_iff.mp stamped
            exact .moves here (.stat detected present same)
      · cases taken
  | lookup i =>
    simp only [step] at taken
    cases here : s.calls[i]? with
    | none => simp [here] at taken
    | some call =>
      simp only [here] at taken
      split at taken
      · rename_i stamp language phase
        split at taken
        · cases taken
          exact .moves here (.miss phase fun e kept => kept)
        · split at taken
          · rename_i parsed cache found
            cases taken
            exact .moves here (.hit phase found)
          · rename_i cache missed
            cases taken
            exact .moves here (.miss phase (ParseCache.lookup_miss missed))
      · cases taken
  | read i =>
    simp only [step] at taken
    cases here : s.calls[i]? with
    | none => simp [here] at taken
    | some call =>
      simp only [here] at taken
      split at taken
      · rename_i stamp language phase
        split at taken
        · cases taken
        · rename_i file present
          split at taken
          · cases taken
            exact .moves here .failed
          · rename_i tree parsed
            cases taken
            exact .moves here (.read phase present parsed)
      · cases taken
  | insert i =>
    simp only [step] at taken
    cases here : s.calls[i]? with
    | none => simp [here] at taken
    | some call =>
      simp only [here] at taken
      split at taken
      · rename_i stamp parsed phase
        cases taken
        refine .moves here (.insert phase ?_)
        intro e kept
        split at kept
        · exact .inl kept
        · exact ParseCache.mem_insert kept
      · cases taken
  | fail i message =>
    simp only [step] at taken
    cases here : s.calls[i]? with
    | none => simp [here] at taken
    | some call =>
      simp only [here] at taken
      split at taken
      · cases taken
        exact .moves here .failed
      · cases taken
        exact .moves here .failed
      · cases taken

variable (treeSitter)

/-- The tree is that of the source, in the language of the path. -/
def Parsed (path : AbsPath) (parsed : ParsedFile Tree) : Prop :=
  Language.detect path = some parsed.language ∧
    treeSitter.parse parsed.language parsed.source = .ok parsed.tree

/-- The stamp was that of the file at some moment, and the source its content then or later. -/
def StampedBefore (history : List (Option SourceFile)) (since : Nat) (stamp : FileStamp)
    (source : List UInt8) : Prop :=
  ∃ a b, since ≤ a ∧ a ≤ b ∧ StampedAt history a stamp ∧ ContentAt history b source

/-- What is known of a call, by its phase. -/
def CallSound (history : List (Option SourceFile)) (call : ParseCall Tree) : Prop :=
  match call.phase with
  | .starting => True
  | .looking stamp language | .reading stamp language =>
    Language.detect call.path = some language ∧
      ∃ a, call.since ≤ a ∧ StampedAt history a stamp
  | .inserting stamp parsed =>
    Parsed treeSitter call.path parsed ∧ StampedBefore history call.since stamp parsed.source
  | .returned (.ok (some parsed)) until_ =>
    Parsed treeSitter call.path parsed ∧
      ∃ t, call.since ≤ t ∧ t ≤ until_ ∧ ContentAt history t parsed.source
  | .returned _ _ => True

/-- Every entry of the cache and every call is sound, as long as stamps tell moments apart. -/
structure Inv (s : Parses Tree) : Prop where
  recorded : ∀ path, s.history path ≠ []
  unique : ∀ {path : AbsPath} {a b : Nat} {stamp}, StampedAt (s.history path) a stamp →
    StampedAt (s.history path) b stamp → a = b
  entries : ∀ {path : AbsPath} {entry}, (path, entry) ∈ s.cache.entries →
    Parsed treeSitter path entry.parsed ∧
      StampedBefore (s.history path) 0 entry.stamp entry.parsed.source
  calls : ∀ {i : Nat} {call}, s.calls[i]? = some call →
    call.since < (s.history call.path).length ∧ CallSound treeSitter (s.history call.path) call

/-- A file is only given a stamp that it never had before. -/
def StampFresh (s : Parses Tree) : Action → Prop
  | .modify path file => ∀ new stamp, file = some new → FileStamp.of new = some stamp →
    ∀ t, ¬ StampedAt (s.history path) t stamp
  | _ => True

variable {treeSitter}

/-- A moment of the past is one whatever the file is changed to. -/
theorem CallSound.grown {history : List (Option SourceFile)} {call : ParseCall Tree}
    (sound : CallSound treeSitter history call) (next : Option SourceFile) :
    CallSound treeSitter (history ++ [next]) call := by
  -- The moments that are spoken of stay where they are in the history.
  cases here : call.phase with
  | starting => simp only [CallSound, here]
  | looking stamp language =>
    simp only [CallSound, here] at sound ⊢
    obtain ⟨detected, a, after, stamped⟩ := sound
    exact ⟨detected, a, after, stamped.grown next⟩
  | reading stamp language =>
    simp only [CallSound, here] at sound ⊢
    obtain ⟨detected, a, after, stamped⟩ := sound
    exact ⟨detected, a, after, stamped.grown next⟩
  | inserting stamp parsed =>
    simp only [CallSound, here] at sound ⊢
    obtain ⟨parsed, a, b, after, later, stamped, held⟩ := sound
    exact ⟨parsed, a, b, after, later, stamped.grown next, held.grown next⟩
  | returned result until_ =>
    rcases result with e | _ | parsed
    · simp only [CallSound, here]
    · simp only [CallSound, here]
    · simp only [CallSound, here] at sound ⊢
      obtain ⟨parsed, t, after, before, held⟩ := sound
      exact ⟨parsed, t, after, before, held.grown next⟩

/-- The file as it is now is what it was changed to last. -/
theorem file_eq_some {s : Parses Tree} {path : AbsPath} {file : SourceFile}
    (here : s.file path = some file) : (s.history path)[s.now path]? = some (some file) := by
  rw [Parses.file, Option.join_eq_some_iff, List.getLast?_eq_getElem?] at here
  exact here

/-- A call that goes on sound leaves the rest as it was. -/
theorem Moves.sound {s : Parses Tree} (inv : s.Inv treeSitter) {i : Nat} {call : ParseCall Tree}
    (here : s.calls[i]? = some call) {phase : ParsePhase Tree}
    {cache : ParseCache (ParseEntry Tree)} (moves : Moves treeSitter s call phase cache) :
    CallSound treeSitter (s.history call.path) { call with phase } := by
  obtain ⟨begun, sound⟩ := inv.calls here
  have present : call.since ≤ s.now call.path := by
    unfold now
    omega
  cases moves with
  | unsupported => trivial
  | failed => trivial
  | stat detected found stamped =>
    exact ⟨detected, _, present, _, file_eq_some found, stamped⟩
  | @hit stamp language parsed cache phase found =>
    -- The file had the stamp of the entry when the call looked, and the source then or later.
    simp only [CallSound, phase] at sound
    obtain ⟨detected, t, after, stamped⟩ := sound
    obtain ⟨own, a, b, _, later, stampedToo, held⟩ :=
      inv.entries (ParseCache.lookup_hit found).1
    have same := inv.unique stampedToo stamped
    refine ⟨own, b, Nat.le_trans after (same ▸ later), ?_, held⟩
    have bound := held.bound
    unfold now
    omega
  | miss phase kept =>
    simp only [CallSound, phase] at sound
    exact sound
  | @read stamp language file tree phase found parsed =>
    simp only [CallSound, phase] at sound
    obtain ⟨detected, a, after, stamped⟩ := sound
    have bound := stamped.bound
    refine ⟨⟨detected, parsed⟩, a, s.now call.path, after, ?_, stamped, ?_⟩
    · unfold now
      omega
    · exact ⟨file, file_eq_some found, rfl⟩
  | @insert stamp parsed cache phase kept =>
    simp only [CallSound, phase] at sound
    obtain ⟨own, a, b, after, later, stamped, held⟩ := sound
    refine ⟨own, b, Nat.le_trans after later, ?_, held⟩
    have bound := held.bound
    unfold now
    omega

/-- It leaves sound entries only. -/
theorem Moves.entries {s : Parses Tree} (inv : s.Inv treeSitter) {i : Nat} {call : ParseCall Tree}
    (here : s.calls[i]? = some call) {phase : ParsePhase Tree}
    {cache : ParseCache (ParseEntry Tree)} (moves : Moves treeSitter s call phase cache)
    {path : AbsPath} {entry : ParseEntry Tree} (kept : (path, entry) ∈ cache.entries) :
    Parsed treeSitter path entry.parsed ∧
      StampedBefore (s.history path) 0 entry.stamp entry.parsed.source := by
  -- Only an insertion adds something, and that is what its call has read.
  cases moves with
  | unsupported => exact inv.entries kept
  | failed => exact inv.entries kept
  | stat detected found stamped => exact inv.entries kept
  | hit phase found => exact inv.entries ((ParseCache.lookup_hit found).2 _ kept)
  | miss phase old => exact inv.entries (old _ kept)
  | read phase found parsed => exact inv.entries kept
  | @insert stamp parsed cache phase old =>
    rcases old _ kept with old | own
    · exact inv.entries old
    · cases own
      obtain ⟨_, sound⟩ := inv.calls here
      simp only [CallSound, phase] at sound
      obtain ⟨own, a, b, _, later, stamped, held⟩ := sound
      exact ⟨own, a, b, Nat.zero_le a, later, stamped, held⟩

/-- A change of a file keeps the invariant, if its stamp is fresh. -/
theorem Inv.modify {s : Parses Tree} (inv : s.Inv treeSitter) {path : AbsPath}
    {file : Option SourceFile} (fresh : s.StampFresh (.modify path file)) :
    ({ s with history := Function.update s.history path (s.history path ++ [file]) } :
      Parses Tree).Inv treeSitter := by
  -- The history of one file grows, and all others stay as they are.
  refine ⟨?_, ?_, ?_, ?_⟩
  · intro other
    by_cases own : other = path
    · simp [own]
    · simp only [Function.update_of_ne own]
      exact inv.recorded other
  · -- A moment after the change is the only one with the new stamp.
    intro other a b stamp first second
    by_cases own : other = path
    · subst own
      simp only [Function.update_self] at first second
      have latest : ∀ t, StampedAt (s.history other ++ [file]) t stamp →
          StampedAt (s.history other) t stamp ∨ t = (s.history other).length ∧
            ∃ new, file = some new ∧ FileStamp.of new = some stamp := by
        intro t stamped
        obtain ⟨found, here, same⟩ := stamped
        rcases Population.joined here with ⟨last, new⟩ | ⟨_, old⟩
        · exact .inr ⟨last, found, new.symm, same⟩
        · exact .inl ⟨found, old, same⟩
      rcases latest a first with old | ⟨last, new, changed, same⟩
      · rcases latest b second with oldToo | ⟨_, new, changed, same⟩
        · exact inv.unique old oldToo
        · exact absurd old (fresh new stamp changed same a)
      · rcases latest b second with old | ⟨lastToo, _⟩
        · exact absurd old (fresh new stamp changed same b)
        · rw [last, lastToo]
    · simp only [Function.update_of_ne own] at first second
      exact inv.unique first second
  · intro other entry kept
    obtain ⟨own, a, b, after, later, stamped, held⟩ := inv.entries kept
    refine ⟨own, ?_⟩
    by_cases changed : other = path
    · subst changed
      simp only [Function.update_self]
      exact ⟨a, b, after, later, stamped.grown file, held.grown file⟩
    · simp only [Function.update_of_ne changed]
      exact ⟨a, b, after, later, stamped, held⟩
  · intro i call here
    obtain ⟨begun, sound⟩ := inv.calls here
    by_cases changed : call.path = path
    · simp only [changed, Function.update_self] at begun sound ⊢
      refine ⟨?_, sound.grown file⟩
      rw [List.length_append]
      omega
    · simp only [Function.update_of_ne changed]
      exact ⟨begun, sound⟩

/-- Every step keeps the invariant, if stamps are fresh. -/
theorem Inv.step {s next : Parses Tree} (inv : s.Inv treeSitter) {action : Action}
    (fresh : s.StampFresh action) (taken : s.step treeSitter action = some next) :
    next.Inv treeSitter := by
  -- One case for each kind of step, of which only a change of a file needs the fresh stamp.
  cases step_spec taken with
  | modify path file => exact inv.modify fresh
  | evict path =>
    exact ⟨inv.recorded, inv.unique, fun kept => inv.entries (ParseCache.mem_evict kept), inv.calls⟩
  | call path =>
    refine ⟨inv.recorded, inv.unique, inv.entries, ?_⟩
    intro i call found
    rcases Population.joined found with ⟨_, rfl⟩ | ⟨_, there⟩
    · have some_state := List.length_pos_iff.mpr (inv.recorded path)
      exact ⟨Nat.sub_one_lt (Nat.ne_of_gt some_state), trivial⟩
    · exact inv.calls there
  | moves here moves =>
    refine ⟨inv.recorded, inv.unique, fun kept => moves.entries inv here kept, ?_⟩
    intro i call found
    rcases Population.moved found with ⟨_, rfl⟩ | ⟨_, there⟩
    · exact ⟨(inv.calls here).1, moves.sound inv here⟩
    · exact inv.calls there

/-- Before the first call, nothing has been changed or kept. -/
theorem start_inv (capacity : Nat) (disk : Disk SourceFile) :
    (start capacity disk : Parses Tree).Inv treeSitter := by
  -- Every file has one moment only, and there are neither entries nor calls.
  refine ⟨fun path => List.cons_ne_nil _ _, ?_, ?_, ?_⟩
  · intro path a b stamp first second
    have last := first.bound
    have lastToo := second.bound
    simp only [start, List.length_singleton] at last lastToo
    omega
  · intro path entry kept
    cases kept
  · intro i call found
    cases found

/--
In every run of lookups, evictions and changes of files, none of which gives a file a stamp that
it had before: what a lookup returns is the content that its file had at some moment between the
beginning of the lookup and its end, with the tree of this content in the language of the path.
-/
theorem get_or_parse_linearizable {capacity : Nat} {disk : Disk SourceFile}
    {actions : List Action} {s : Parses Tree}
    (fresh : Along (step treeSitter) StampFresh (start capacity disk) actions)
    (ran : run (step treeSitter) (start capacity disk) actions = some s) {i : Nat}
    {call : ParseCall Tree} (here : s.calls[i]? = some call) {parsed : ParsedFile Tree}
    {until_ : Nat} (returned : call.phase = .returned (.ok (some parsed)) until_) :
    Language.detect call.path = some parsed.language ∧
      treeSitter.parse parsed.language parsed.source = .ok parsed.tree ∧
      ∃ t file, call.since ≤ t ∧ t ≤ until_ ∧ (s.history call.path)[t]? = some (some file) ∧
        file.content = parsed.source := by
  -- What a call returns was sound when it returned, and the invariant has kept that.
  have inv : s.Inv treeSitter := run_invariant_along _
    (fun _ _ _ inv fresh taken => inv.step fresh taken) (start_inv capacity disk) fresh ran
  have sound := (inv.calls here).2
  simp only [CallSound, returned] at sound
  obtain ⟨⟨detected, tree⟩, t, after, before, file, found, same⟩ := sound
  exact ⟨detected, tree, t, file, after, before, found, same⟩

/-- A parser whose trees are the lengths of the sources. -/
def lengthParser : TreeSitter Nat where
  parse _ source := .ok source.length

/-- A source file, before and after a change. -/
def sourcePath : AbsPath := ["project", "a.rs"]

/-- The file before the change. -/
def sourceBefore : SourceFile := { modified := some 1, content := [97] }

/-- The file after it. -/
def sourceAfter : SourceFile := { modified := some 2, content := [98, 99] }

/-- Only this file exists. -/
def sourceDisk : Disk SourceFile := fun path => if path = sourcePath then some sourceBefore else none

/-- Two lookups see the old stamp; the first one keeps the new content under it. -/
def lateInsertRun : List Action :=
  [.call sourcePath, .call sourcePath, .stat 0, .stat 1, .lookup 0,
    .modify sourcePath (some sourceAfter), .read 0, .insert 0, .lookup 1]

/-- The change gives the file a fresh stamp. -/
theorem lateInsertRun_fresh :
    Along (step lengthParser) StampFresh (start 1 sourceDisk) lateInsertRun := by
  refine ⟨trivial, trivial, trivial, trivial, trivial, ?_, trivial, trivial, trivial, trivial⟩
  intro new stamp changed same t stamped
  -- The file was stamped only once before it changes, and differently.
  obtain ⟨file, found, alike⟩ := stamped
  cases changed
  cases t with
  | zero =>
    cases found
    rw [← same] at alike
    cases alike
  | succ t => cases found

/-- The second lookup returns what the first one kept, which the file was by then. -/
theorem lateInsert_linearizable :
    ∃ s call, run (step lengthParser) (start 1 sourceDisk) lateInsertRun = some s ∧
      s.calls[1]? = some call ∧ ∃ t file, call.since ≤ t ∧ t ≤ 1 ∧
        (s.history call.path)[t]? = some (some file) ∧ file.content = [98, 99] := by
  -- The run is evaluated up to what the second call has in its hands.
  obtain ⟨s, ran⟩ : ∃ s, run (step lengthParser) (start 1 sourceDisk) lateInsertRun = some s :=
    ⟨_, rfl⟩
  have seen : ∃ call, ((run (step lengthParser) (start 1 sourceDisk) lateInsertRun).bind
      fun s => s.calls[1]?) = some call ∧ call.phase = .returned
        (.ok (some { language := .rust, source := [98, 99], tree := 2 })) 1 := ⟨_, rfl, rfl⟩
  rw [ran] at seen
  obtain ⟨call, here, returned⟩ := seen
  exact ⟨s, call, ran, here, (get_or_parse_linearizable lateInsertRun_fresh ran here returned).2.2⟩

end Parses

end McpCli
