import McpCli.Daemon.ToolRun
import McpCli.Proofs.Daemon.OsPath
import McpCli.Transition.Population

/-! What a result from the cache of `tool.run` goes back to. -/

namespace McpCli

open Text Transition

/-- A number looks like one. -/
theorem decimal_formed (n : Nat) : (Json.number (String.ofList (decimal n))).Formed := by
  have digits : ∀ c ∈ decimal n, c.isDigit = true := fun c member => isDigit_of_mem_decimal member
  have nonempty : decimal n ≠ [] := Nat.toDigits_ne_nil
  rw [Json.Formed, String.toList_ofList]
  refine ⟨?_, fun c member => ?_⟩
  · -- There is a first digit, and no sign in front of it.
    obtain ⟨c, rest, text⟩ := List.exists_cons_of_ne_nil nonempty
    refine ⟨c, by rw [text]; rfl, .inl (digits c ?_)⟩
    rw [text]
    exact List.mem_cons_self
  · rw [isNumeric, digits c member]
    rfl

/-- Numbers are the same if their digits are. -/
theorem decimal_inj {n m : Nat} (same : decimal n = decimal m) : n = m := by
  -- The number is what its digits are worth.
  have value (k : Nat) : Nat.ofDigitChars 10 (decimal k) 0 = k :=
    Nat.ofDigitChars_toDigits (by decide) (by decide)
  rw [← value n, ← value m, same]

/-- Items are well formed one by one. -/
theorem formedItems {items : List Json} (formed : ∀ item ∈ items, item.Formed) :
    Json.FormedItems items := by
  induction items with
  | nil => exact trivial
  | cons item rest ih =>
    rw [List.forall_mem_cons] at formed
    exact ⟨formed.1, ih formed.2⟩

/-- The value that stands for a request is well formed. -/
theorem toolRunCacheValue_formed (version : Nat) (cwd : List Char) (params : ToolRunParams) :
    (toolRunCacheValue version cwd params).Formed := by
  simp only [toolRunCacheValue, Json.Formed, Json.FormedMembers, true_and, and_true]
  refine ⟨formedItems ?_, formedItems ?_, ?_, decimal_formed version⟩
  · -- Arguments and variables are strings, which always are.
    intro item member
    obtain ⟨arg, _, rfl⟩ := List.mem_map.mp member
    exact trivial
  · intro item member
    obtain ⟨e, _, rfl⟩ := List.mem_map.mp member
    exact ⟨trivial, trivial, trivial⟩
  · -- Without a limit there is nothing to be written.
    cases params.maxOutputBytes with
    | none => exact trivial
    | some n => exact decimal_formed n

/-- Two requests are alike in all that their results depend on, the directory apart. -/
structure ToolRunParams.Alike (params other : ToolRunParams) : Prop where
  command : params.command = other.command
  args : params.args = other.args
  env : params.env = other.env
  maxOutputBytes : params.maxOutputBytes = other.maxOutputBytes

/-- Requests with one key are alike, with one version and directories that look the same. -/
theorem toolRunCacheKey_inj {version version' : Nat} {cwd cwd' : List Char}
    {params params' : ToolRunParams}
    (same : toolRunCacheKey version cwd params = toolRunCacheKey version' cwd' params') :
    version = version' ∧ cwd = cwd' ∧ params.Alike params' := by
  -- The values behind the texts are the same, and so is each of their members.
  have values := Json.write_inj (toolRunCacheValue_formed version cwd params)
    (toolRunCacheValue_formed version' cwd' params') same
  have strings : Function.Injective Json.string := fun _ _ same => Json.string.inj same
  have pairs : Function.Injective fun e : ToolRunEnv =>
      Json.object [("name", .string e.name), ("value", .string e.value)] := by
    intro e e' same
    simp only [Json.object.injEq, List.cons.injEq, Prod.mk.injEq, Json.string.injEq, true_and,
      and_true] at same
    cases e
    cases e'
    simp only [ToolRunEnv.mk.injEq]
    exact same
  simp only [toolRunCacheValue, Json.object.injEq, List.cons.injEq, Prod.mk.injEq,
    Json.array.injEq, Json.string.injEq, Json.number.injEq, true_and, and_true,
    String.ofList_inj] at values
  obtain ⟨args, command, cwds, env, limit, versions⟩ := values
  refine ⟨decimal_inj versions, cwds, command, strings.list_map args, pairs.list_map env, ?_⟩
  cases first : params.maxOutputBytes with
  | none =>
    cases second : params'.maxOutputBytes with
    | none => rfl
    | some m =>
      rw [first, second] at limit
      cases limit
  | some n =>
    cases second : params'.maxOutputBytes with
    | none =>
      rw [first, second] at limit
      cases limit
    | some m =>
      rw [first, second] at limit
      simp only [Option.map_some, Option.getD_some, Json.number.injEq, String.ofList_inj] at limit
      exact congrArg some (decimal_inj limit)

namespace OsPath

/-- A path below the root all of whose names there are texts. -/
def Named (root path : OsPath) : Prop :=
  ∃ names : List (List Char), (∀ name ∈ names, name ≠ [] ∧ '/' ∉ name) ∧
    path = root ++ names.map encodeUtf8

/-- The root is below itself with no names at all. -/
theorem named_self (root : OsPath) : Named root root :=
  ⟨[], nofun, (List.append_nil root).symm⟩

/-- Paths whose names are texts are shown apart. -/
theorem Named.displayBelow_inj {root path other : OsPath} (named : Named root path)
    (named' : Named root other) (same : path.displayBelow root = other.displayBelow root) :
    path = other := by
  obtain ⟨names, some_, rfl⟩ := named
  obtain ⟨names', some', rfl⟩ := named'
  simp only [displayBelow, List.prefix_append, if_true, List.drop_left, joined_encode,
    decodeLossy_encodeUtf8] at same
  rw [intercalate_inj some_ some' same]

end OsPath

/-- Two requests whose results may stand for each other. -/
structure ToolRunCall.Agrees (call other : ToolRunCall) : Prop where
  params : call.params.Alike other.params
  cwd : call.cwd = other.cwd
  version : call.version = other.version

/-- A request that has entered its result in the cache. -/
structure ToolRunCall.Stores (call : ToolRunCall) (result : ToolRunResult) : Prop where
  asked : call.params.cache = true
  success : result.success = true
  ran : result.cached = false

namespace ToolRuns

/--
Each answer from the cache is, but for the mark that it is one, the answer to a request that has
run its command with success, and that was the same in all that a result depends on.
-/
def ServedRight (s : ToolRuns) : Prop :=
  ∀ call served, .returned call served ∈ s.requests → served.cached = true →
    ∃ other result, .returned other result ∈ s.requests ∧ other.Agrees call ∧
      other.Stores result ∧ served = { result with cached := true }

/--
While a request is looked up in the cache, no result is there of a request that differs from it in
nothing but the directory, and whose directory looks the same although it is another one.
-/
def Apart (s : ToolRuns) : Action → Prop
  | .advance request =>
    ∀ call, s.requests[request]? = some (.observed call) → call.params.cache = true →
      ∀ other result, .returned other result ∈ s.requests → other.Stores result →
        other.params.Alike call.params → other.version = call.version →
        other.cwdDisplay s.root = call.cwdDisplay s.root → other.cwd = call.cwd
  | _ => True

/-- A phase without an answer. -/
def Open : ToolRunPhase → Prop
  | .returned .. => False
  | _ => True

/-- A command that has ended was not answered from the cache. -/
def Fresh : ToolRunPhase → Prop
  | .ran _ result => result.cached = false
  | _ => True

/-- What is in the cache, and where it comes from. -/
structure Inv (s : ToolRuns) : Prop where
  /-- Each entry was made by a request that has its key. -/
  entered : ∀ key result, s.cache.lookup key = some result →
    ∃ other, .returned other result ∈ s.requests ∧ other.Stores result ∧ other.key s.root = key
  fresh : ∀ phase ∈ s.requests, Fresh phase
  served : s.ServedRight

/-- Nothing is served or entered by a step that returns no answer. -/
theorem Inv.quiet {s next : ToolRuns} (inv : s.Inv) (root : next.root = s.root)
    (cache : next.cache = s.cache)
    (kept : ∀ call result, .returned call result ∈ s.requests → .returned call result ∈ next.requests)
    (old : ∀ call result, .returned call result ∈ next.requests → .returned call result ∈ s.requests)
    (fresh : ∀ phase ∈ next.requests, Fresh phase) : next.Inv := by
  refine ⟨fun key result found => ?_, fresh, fun call served returned cached => ?_⟩
  · -- The request that made the entry is still there with its answer.
    rw [cache] at found
    rw [root]
    obtain ⟨other, returned, stores, same⟩ := inv.entered key result found
    exact ⟨other, kept other result returned, stores, same⟩
  · obtain ⟨other, result, before, right⟩ :=
      inv.served call served (old call served returned) cached
    exact ⟨other, result, kept other result before, right⟩

variable {s : ToolRuns} {request : Nat} {phase moved : ToolRunPhase}

/-- A phase without an answer is not one with an answer. -/
theorem Open.ne {call : ToolRunCall} {result : ToolRunResult} (unanswered : Open phase) :
    .returned call result ≠ phase := by
  rintro rfl
  exact unanswered

/-- A request that goes on without an answer leaves all as it was. -/
theorem Inv.moves (inv : s.Inv) (here : s.requests[request]? = some phase) (before : Open phase)
    (after : Open moved) (fresh : Fresh moved) :
    Inv { s with requests := s.requests.set request moved } := by
  -- No answer stands where the request stood, and none stands there now.
  refine inv.quiet rfl rfl ?_ ?_ ?_
  · intro call result returned
    exact Population.moved_mem here returned before.ne moved
  · intro call result returned
    rcases List.mem_or_eq_of_mem_set returned with old | new
    · exact old
    · exact absurd new after.ne
  · intro phase member
    rcases List.mem_or_eq_of_mem_set member with old | new
    · exact inv.fresh phase old
    · rw [new]
      exact fresh

/-- A request that gets the right answer may enter it in the cache. -/
theorem Inv.returns (inv : s.Inv) (here : s.requests[request]? = some phase) (before : Open phase)
    {call : ToolRunCall} {answer : ToolRunResult}
    {cache : AList fun _ : List Char => ToolRunResult}
    (right : answer.cached = true →
      ∃ other result, .returned other result ∈ s.requests ∧ other.Agrees call ∧
        other.Stores result ∧ answer = { result with cached := true })
    (entered : ∀ key result, cache.lookup key = some result →
      s.cache.lookup key = some result ∨
        result = answer ∧ call.Stores answer ∧ call.key s.root = key) :
    Inv { s with requests := s.requests.set request (.returned call answer), cache } := by
  -- The answers from before are still there.
  have kept : ∀ other result, .returned other result ∈ s.requests →
      .returned other result ∈ s.requests.set request (.returned call answer) :=
    fun other result member => Population.moved_mem here member before.ne _
  refine ⟨fun key result found => ?_, fun other member => ?_, fun other result => ?_⟩
  · rcases entered key result found with old | ⟨same, stores, own⟩
    · obtain ⟨other, returned, right⟩ := inv.entered key result old
      exact ⟨other, kept other result returned, right⟩
    · subst same
      exact ⟨call, List.mem_of_getElem? (Population.moved_self here), stores, own⟩
  · rcases List.mem_or_eq_of_mem_set member with old | new
    · exact inv.fresh other old
    · rw [new]
      exact trivial
  · intro member cached
    have origin : ∃ first ran, .returned first ran ∈ s.requests ∧ first.Agrees other ∧
        first.Stores ran ∧ result = { ran with cached := true } := by
      rcases List.mem_or_eq_of_mem_set member with old | new
      · exact inv.served other result old cached
      · cases new
        exact right cached
    obtain ⟨first, ran, returned, rest⟩ := origin
    exact ⟨first, ran, kept first ran returned, rest⟩

/-- What is found under the key of a request was entered by one that agrees with it. -/
theorem Inv.lookup (inv : s.Inv) {call : ToolRunCall} {result : ToolRunResult}
    (apart : s.Apart (.advance request)) (here : s.requests[request]? = some (.observed call))
    (asked : call.params.cache = true)
    (found : s.cache.lookup (call.key s.root) = some result) :
    ∃ other, .returned other result ∈ s.requests ∧ other.Agrees call ∧ other.Stores result := by
  obtain ⟨other, returned, stores, same⟩ := inv.entered _ result found
  -- The key tells all but directories that look the same.
  obtain ⟨version, shown, params⟩ := toolRunCacheKey_inj same
  have cwd := apart call here asked other result returned stores params version shown
  exact ⟨other, returned, ⟨params, cwd, version⟩, stores⟩

/-- A step of one request keeps the invariant. -/
theorem Inv.advance (inv : s.Inv) (apart : s.Apart (.advance request))
    (here : s.requests[request]? = some phase)
    {cache : AList fun _ : List Char => ToolRunResult}
    (taken : s.next phase = some (moved, cache)) :
    Inv { s with requests := s.requests.set request moved, cache } := by
  cases phase with
  | resolved params cwd =>
    cases taken
    exact inv.moves here trivial trivial trivial
  | observed call =>
    simp only [next] at taken
    split at taken
    · rename_i asked
      split at taken
      · rename_i result found
        cases taken
        obtain ⟨other, returned, agrees, stores⟩ := inv.lookup apart here asked found
        exact inv.returns here trivial
          (fun _ => ⟨other, result, returned, agrees, stores, rfl⟩) (fun _ _ old => .inl old)
      · cases taken
        exact inv.moves here trivial trivial trivial
    · cases taken
      exact inv.moves here trivial trivial trivial
  | ran call result =>
    have own : result.cached = false := inv.fresh _ (List.mem_of_getElem? here)
    have unserved : ¬ result.cached = true := by rw [own]; exact Bool.false_ne_true
    simp only [next] at taken
    split at taken
    · rename_i both
      cases taken
      apply inv.returns here trivial (fun served => absurd served unserved)
      intro key found entry
      -- Whatever else is in the cache was there before.
      by_cases same : key = call.key s.root
      · subst same
        rw [AList.lookup_insert, Option.some.injEq] at entry
        exact .inr ⟨entry.symm, ⟨both.2, both.1, own⟩, rfl⟩
      · rw [AList.lookup_insert_ne same] at entry
        exact .inl entry
    · cases taken
      exact inv.returns here trivial (fun served => absurd served unserved) (fun _ _ old => .inl old)
  | running call => cases taken
  | returned call result => cases taken
  | failed error => cases taken

/-- Every step keeps the invariant, if directories that look the same are the same. -/
theorem Inv.step {next : ToolRuns} {action : Action} (inv : s.Inv) (apart : s.Apart action)
    (taken : s.step action = some next) : next.Inv := by
  cases action with
  | arrive params canonicalize =>
    cases taken
    -- A request that has just arrived has no answer.
    have unanswered : Open (arrival s.root params canonicalize) ∧
        Fresh (arrival s.root params canonicalize) := by
      unfold arrival
      split
      · exact ⟨trivial, trivial⟩
      · split
        · exact ⟨trivial, trivial⟩
        · split
          · exact ⟨trivial, trivial⟩
          · exact ⟨trivial, trivial⟩
    refine inv.quiet rfl rfl ?_ ?_ ?_
    · intro call result returned
      exact List.mem_append_left _ returned
    · intro call result returned
      rcases List.mem_append.mp returned with old | new
      · exact old
      · exact absurd (List.mem_singleton.mp new) unanswered.1.ne
    · intro phase member
      rcases List.mem_append.mp member with old | new
      · exact inv.fresh phase old
      · rw [List.mem_singleton.mp new]
        exact unanswered.2
  | advance request =>
    simp only [ToolRuns.step] at taken
    cases here : s.requests[request]? with
    | none => simp [here] at taken
    | some phase =>
      simp only [here, Option.map_eq_some_iff] at taken
      obtain ⟨⟨moved, cache⟩, went, same⟩ := taken
      subst same
      exact inv.advance apart here went
  | finish request output =>
    simp only [ToolRuns.step] at taken
    split at taken
    · rename_i call here
      cases taken
      cases output with
      | ok output =>
        -- What a command has left is no answer from the cache.
        have fresh : Fresh (ended s.root call (.ok output)) := rfl
        exact inv.moves here trivial trivial fresh
      | error e => exact inv.moves here trivial trivial trivial
    · cases taken
  | record path kind =>
    cases taken
    exact inv.quiet rfl rfl (fun _ _ same => same) (fun _ _ same => same) inv.fresh

/-- A daemon that has answered no request yet. -/
structure Ready (s : ToolRuns) : Prop where
  cache : s.cache = ∅
  requests : s.requests = []

/--
In every state of a run in which directories that look the same are the same, each answer from the
cache is the answer to a request that agrees with its own.
-/
theorem served_as_run {start : ToolRuns} (ready : start.Ready) {actions : List Action}
    (apart : Along ToolRuns.step Apart start actions) :
    Visits ToolRuns.step ServedRight start actions := by
  -- At the start there is nothing in the cache and no request under way.
  have first : start.Inv := by
    refine ⟨fun key result found => ?_, fun phase member => ?_, fun call result member => ?_⟩
    · rw [ready.cache] at found
      cases found
    · rw [ready.requests] at member
      cases member
    · rw [ready.requests] at member
      cases member
  exact (visits_of_invariant Inv (fun _ _ _ inv met taken => inv.step met taken) first apart).mono
    fun _ inv => inv.served

/-- The directory in which the command of a request runs, once it is known. -/
def cwdOf : ToolRunPhase → Option OsPath
  | .resolved _ cwd => some cwd
  | .observed call | .running call | .ran call _ | .returned call _ => some call.cwd
  | .failed _ => none

/-- The directories of all requests have names that are texts. -/
def Named (s : ToolRuns) : Prop :=
  ∀ phase ∈ s.requests, ∀ cwd, cwdOf phase = some cwd → OsPath.Named s.root cwd

/-- A directory that is found below the root has names that are texts. -/
def FindsNamed (s : ToolRuns) : Action → Prop
  | .arrive _ (.ok cwd) => s.root <+: cwd → OsPath.Named s.root cwd
  | _ => True

/-- A request that goes on stays in its directory. -/
theorem cwdOf_next {cache : AList fun _ : List Char => ToolRunResult}
    (taken : s.next phase = some (moved, cache)) : cwdOf moved = cwdOf phase := by
  -- Every branch keeps the call, or what it was made from.
  cases phase with
  | resolved params cwd => cases taken; rfl
  | observed call =>
    simp only [next] at taken
    split at taken
    · split at taken
      · cases taken; rfl
      · cases taken; rfl
    · cases taken; rfl
  | ran call result =>
    simp only [next] at taken
    split at taken
    · cases taken; rfl
    · cases taken; rfl
  | running call => cases taken
  | returned call result => cases taken
  | failed error => cases taken

/-- Every step keeps the names, if those that it finds are texts. -/
theorem Named.step {next : ToolRuns} {action : Action} (named : s.Named)
    (finds : s.FindsNamed action) (taken : s.step action = some next) : next.Named := by
  cases action with
  | arrive params canonicalize =>
    cases taken
    intro phase member cwd found
    rcases List.mem_append.mp member with old | new
    · exact named phase old cwd found
    · rw [List.mem_singleton.mp new, arrival] at found
      split at found
      · cases found
      · split at found
        · cases found
          exact OsPath.named_self s.root
        · split at found
          · rename_i candidate _ canon resolved
            cases found
            -- Only a directory that was found below the root is taken.
            cases canonicalize with
            | error e => cases resolved
            | ok path =>
              simp only [resolveWithin] at resolved
              split at resolved
              · rename_i below
                cases resolved
                exact finds below
              · cases resolved
          · cases found
  | advance request =>
    simp only [ToolRuns.step] at taken
    cases here : s.requests[request]? with
    | none => simp [here] at taken
    | some phase =>
      simp only [here, Option.map_eq_some_iff] at taken
      obtain ⟨⟨moved, cache⟩, went, same⟩ := taken
      subst same
      intro other member cwd found
      rcases List.mem_or_eq_of_mem_set member with old | new
      · exact named other old cwd found
      · rw [new, cwdOf_next went] at found
        exact named phase (List.mem_of_getElem? here) cwd found
  | finish request output =>
    simp only [ToolRuns.step] at taken
    split at taken
    · rename_i call here
      cases taken
      intro other member cwd found
      rcases List.mem_or_eq_of_mem_set member with old | new
      · exact named other old cwd found
      · rw [new] at found
        cases output with
        | ok output => exact named _ (List.mem_of_getElem? here) cwd found
        | error e => cases found
    · cases taken
  | record path kind =>
    cases taken
    exact named

/-- Directories that look the same are the same if all names are texts. -/
theorem Named.apart (named : s.Named) (action : Action) : s.Apart action := by
  cases action with
  | advance request =>
    -- Both directories have names that are texts, so that they are shown apart.
    intro call here _ other result returned _ _ _ same
    have own := named _ (List.mem_of_getElem? here) call.cwd rfl
    have others := named _ returned other.cwd rfl
    exact others.displayBelow_inj own same
  | arrive params canonicalize => exact trivial
  | finish request output => exact trivial
  | record path kind => exact trivial

/-- In a project whose directories have names that are texts, none are taken for each other. -/
theorem along_apart {start : ToolRuns} (ready : start.Ready) {actions : List Action}
    (finds : Along ToolRuns.step FindsNamed start actions) :
    Along ToolRuns.step Apart start actions := by
  -- There is no request yet.
  have first : start.Named := by
    intro phase member
    rw [ready.requests] at member
    cases member
  have visits := visits_of_invariant Named (fun _ _ _ named met taken => named.step met taken)
    first finds
  exact visits.strengthen finds fun _ action _ named _ _ => named.apart action

/-- A request to list a directory, which may be answered from the cache. -/
def listing (cwd : String) : ToolRunParams where
  command := "ls"
  args := []
  cwd := some cwd
  env := []
  maxOutputBytes := none
  cache := true

/-- A project, and no request yet. -/
def idle : ToolRuns where
  root := [[0x70]]
  log := ChangeLog.withCapacity 64
  cache := ∅
  requests := []

/-- What the list of a directory with one file looks like. -/
def oneName : CommandOutput where
  stdout := [0x61, 0x0A]
  stderr := []
  code := some 0

/-- Two directories are listed one after the other, the first of them with success. -/
def twoListings (one other : List UInt8) : List Action :=
  [.arrive (listing "x") (.ok [[0x70], one]), .advance 0, .advance 0, .finish 0 (.ok oneName),
    .advance 0, .arrive (listing "y") (.ok [[0x70], other]), .advance 1, .advance 1]

/-- The second one of two links to one directory is answered from the cache, as it should be. -/
theorem served_as_run_linked : Visits ToolRuns.step ServedRight idle (twoListings [0x64] [0x64]) ∧
    ∃ s call result, run ToolRuns.step idle (twoListings [0x64] [0x64]) = some s ∧
      s.requests[1]? = some (.returned call result) ∧ result.cached = true := by
  have named : OsPath.Named [[0x70]] [[0x70], [0x64]] := ⟨[['d']], by decide, by decide⟩
  have finds : Along ToolRuns.step FindsNamed idle (twoListings [0x64] [0x64]) :=
    ⟨fun _ => named, trivial, trivial, trivial, trivial, fun _ => named, trivial, trivial, trivial⟩
  exact ⟨served_as_run ⟨rfl, rfl⟩ (along_apart ⟨rfl, rfl⟩ finds), _, _, _, rfl, rfl, rfl⟩

/-- The second one of two directories gets what the first one holds if neither name is a text. -/
theorem not_served_right_undecodable :
    ¬ Visits ToolRuns.step ServedRight idle (twoListings [0xFF] [0xFE]) := by
  intro visits
  obtain ⟨s, ran⟩ : ∃ s, run ToolRuns.step idle (twoListings [0xFF] [0xFE]) = some s := ⟨_, rfl⟩
  have right : s.ServedRight := visits.last ran
  let first : ToolRunCall := { params := listing "x", cwd := [[0x70], [0xFF]], version := 0 }
  let second : ToolRunCall := { params := listing "y", cwd := [[0x70], [0xFE]], version := 0 }
  let result := first.result [[0x70]] oneName
  have requests : s.requests =
      [.returned first result, .returned second { result with cached := true }] := by
    have both : (run ToolRuns.step idle (twoListings [0xFF] [0xFE])).map ToolRuns.requests =
        some [.returned first result, .returned second { result with cached := true }] := by decide
    rw [ran] at both
    exact Option.some.inj both
  have served : .returned second { result with cached := true } ∈ s.requests := by
    rw [requests]
    exact List.mem_cons_of_mem _ List.mem_cons_self
  -- The one request is for another directory, and the other one did not run.
  obtain ⟨other, origin, returned, agrees, stores, _⟩ := right _ _ served rfl
  rw [requests, List.mem_cons, List.mem_singleton] at returned
  rcases returned with one | two
  · cases one
    exact absurd agrees.cwd (by decide)
  · cases two
    cases stores.ran

end ToolRuns

end McpCli
