import McpCli.Daemon.Scan
import McpCli.Proofs.Daemon.ChangeFeed

/-! When a scan followed by one `fs.changes` gives exactly the files a scan would list then. -/

namespace McpCli

open Journal ChangeFeed

variable {Content Parsed : Type} {gitignore : Gitignore Content} {lists : RelPath → Bool}

namespace ChangeFeed

/-- The name of a path below the root whose changes the log reports. -/
def Watched (gitignore : Gitignore Content) (s : ChangeFeed Content Parsed) (rel : RelPath) :
    Prop :=
  trackedName gitignore s.disk s.watcher.filter.root (s.watcher.filter.root ++ rel) = some rel

/-- A watched name is tracked exactly when its file exists. -/
theorem Watched.tracked {s : ChangeFeed Content Parsed} {rel : RelPath}
    (watched : s.Watched gitignore rel) :
    McpCli.tracked gitignore s.disk s.watcher.filter.root rel =
      (s.disk (s.watcher.filter.root ++ rel)).isSome := by
  obtain ⟨_, below, kept⟩ := trackedName_eq_some.mp watched
  simp [McpCli.tracked, visible, below, kept]

/-- Records name watched paths only, and their last word on each is whether it exists. -/
structure Settled (gitignore : Gitignore Content) (s : ChangeFeed Content Parsed)
    (records : List (RelPath × ChangeKind)) : Prop where
  named : ∀ change ∈ records, s.Watched gitignore change.1
  lastWord : ∀ rel change, lastFor Prod.fst rel records = some change →
    change.2.present = tracked gitignore s.disk s.watcher.filter.root rel

/-- Records that are left over from settled ones at the newest end are settled. -/
theorem Settled.newest {s : ChangeFeed Content Parsed} {older newer : List (RelPath × ChangeKind)}
    (settled : s.Settled gitignore (older ++ newer)) : s.Settled gitignore newer := by
  refine ⟨fun change member => settled.named change (List.mem_append_right _ member), ?_⟩
  intro rel change last
  -- The newest part is searched first.
  exact settled.lastWord rel change (by rw [lastFor_append, last, Option.some_or])

/-- After an operation a watched name exists as its records say, or as before without any. -/
theorem tracked_after_op {s next : ChangeFeed Content Parsed} {op : FileOp Content}
    (coherent : s.watcher.filter.Coherent s.disk) (leaves : op.LeavesRules s.disk)
    (told : op.SaysWhatLeft gitignore s.disk s.watcher.filter.root)
    (taken : s.step gitignore (.op op) = some next) (rel : RelPath) :
    tracked gitignore next.disk next.watcher.filter.root rel =
      ((lastFor Prod.fst rel (s.recordsOfOp gitignore op)).map fun change =>
        change.2.present).getD (tracked gitignore s.disk s.watcher.filter.root rel) := by
  -- The records of an operation, replayed, end in what it has left.
  obtain ⟨_, shape, _⟩ := step_op coherent leaves taken
  have watcher : next.watcher = s.watcher := by rw [shape]
  rw [watcher, ← tracked_op coherent leaves told taken, replayKinds, replay_eq_lastFor]

/-- An operation leaves watched names watched. -/
theorem watched_op {s next : ChangeFeed Content Parsed} {op : FileOp Content}
    (coherent : s.watcher.filter.Coherent s.disk) (leaves : op.LeavesRules s.disk)
    (taken : s.step gitignore (.op op) = some next) (rel : RelPath) :
    next.Watched gitignore rel ↔ s.Watched gitignore rel := by
  obtain ⟨_, shape, _, _, kept⟩ := step_op coherent leaves taken
  have watcher : next.watcher = s.watcher := by rw [shape]
  rw [Watched, Watched, watcher, trackedName, trackedName, kept]

/-- A delivery leaves watched names watched. -/
theorem watched_deliver {s next : ChangeFeed Content Parsed}
    (coherent : s.watcher.filter.Coherent s.disk)
    (taken : s.step gitignore .deliver = some next) (rel : RelPath) :
    next.Watched gitignore rel ↔ s.Watched gitignore rel := by
  obtain ⟨_, _, shape, _, _, root⟩ := step_deliver coherent taken
  have disk : next.disk = s.disk := by rw [shape]
  rw [Watched, Watched, disk, root]

/-- The records of an operation settle on the disk that it leaves behind. -/
theorem Settled.op {s next : ChangeFeed Content Parsed} {op : FileOp Content}
    {records : List (RelPath × ChangeKind)} (settled : s.Settled gitignore records)
    (coherent : s.watcher.filter.Coherent s.disk) (leaves : op.LeavesRules s.disk)
    (told : op.SaysWhatLeft gitignore s.disk s.watcher.filter.root)
    (taken : s.step gitignore (.op op) = some next) :
    next.Settled gitignore (records ++ s.recordsOfOp gitignore op) := by
  refine ⟨?_, ?_⟩
  · intro change member
    rw [watched_op coherent leaves taken]
    rcases List.mem_append.mp member with old | new
    · exact settled.named change old
    · -- Only tracked paths leave records, under their own names.
      obtain ⟨⟨path, kind⟩, _, recorded⟩ := List.mem_filterMap.mp new
      obtain ⟨name, named, rfl⟩ := Option.map_eq_some_iff.mp recorded
      rw [(trackedName_eq_some.mp named).1] at named
      exact named
  · -- The last word on a path is from the operation, or was said before it.
    intro rel change last
    rw [tracked_after_op coherent leaves told taken]
    rw [lastFor_append] at last
    cases latest : lastFor Prod.fst rel (s.recordsOfOp gitignore op) with
    | some recent =>
      rw [latest, Option.some_or, Option.some.injEq] at last
      rw [← last]
      rfl
    | none =>
      rw [latest, Option.none_or] at last
      exact settled.lastWord rel change last

/-- A delivery leaves the disk alone, and with it what is settled. -/
theorem Settled.deliver {s next : ChangeFeed Content Parsed}
    {records : List (RelPath × ChangeKind)} (settled : s.Settled gitignore records)
    (coherent : s.watcher.filter.Coherent s.disk)
    (taken : s.step gitignore .deliver = some next) : next.Settled gitignore records := by
  -- Names are watched by the same rules before and after.
  obtain ⟨_, _, shape, _, _, root⟩ := step_deliver coherent taken
  have disk : next.disk = s.disk := by rw [shape]
  refine ⟨fun change member => (watched_deliver coherent taken _).mpr (settled.named change member),
    ?_⟩
  rw [disk, root]
  exact settled.lastWord

/--
What is still to be told since a version is settled, and every watched name that it does not
speak about has the given property.
-/
structure Abreast (gitignore : Gitignore Content) (s : ChangeFeed Content Parsed) (since : Nat)
    (agrees : RelPath → Prop) : Prop where
  behind : since ≤ s.watcher.log.version
  settled : s.watcher.log.overflowHighWater ≤ since →
    s.Settled gitignore (s.untold gitignore since)
  silent : s.watcher.log.overflowHighWater ≤ since → ∀ rel, s.Watched gitignore rel →
    lastFor Prod.fst rel (s.untold gitignore since) = none → agrees rel

/-- An operation says something about every watched name that it creates or removes. -/
theorem Abreast.op {s next : ChangeFeed Content Parsed} {op : FileOp Content} {since : Nat}
    {agrees still : RelPath → Prop} (abreast : s.Abreast gitignore since agrees)
    (coherent : s.watcher.filter.Coherent s.disk) (leaves : op.LeavesRules s.disk)
    (told : op.SaysWhatLeft gitignore s.disk s.watcher.filter.root)
    (taken : s.step gitignore (.op op) = some next)
    (untouched : ∀ rel, agrees rel →
      (next.disk (next.watcher.filter.root ++ rel)).isSome =
        (s.disk (s.watcher.filter.root ++ rel)).isSome → still rel) :
    next.Abreast gitignore since still := by
  obtain ⟨_, shape, _⟩ := step_op coherent leaves taken
  have watcher : next.watcher = s.watcher := by rw [shape]
  have records := untold_op coherent leaves taken since
  refine ⟨watcher ▸ abreast.behind, ?_, ?_⟩
  · intro held
    rw [records]
    exact (abreast.settled (watcher ▸ held)).op coherent leaves told taken
  · intro held rel watched unspoken
    rw [records, lastFor_append, Option.or_eq_none_iff] at unspoken
    have before := (watched_op coherent leaves taken rel).mp watched
    refine untouched rel (abreast.silent (watcher ▸ held) rel before unspoken.2) ?_
    -- Without a record of its own, the name exists exactly if it did before.
    rw [← watched.tracked, ← before.tracked, tracked_after_op coherent leaves told taken,
      unspoken.1]
    rfl

/-- A delivery only moves what is still to be told. -/
theorem Abreast.deliver {s next : ChangeFeed Content Parsed} {since : Nat}
    {agrees : RelPath → Prop} (abreast : s.Abreast gitignore since agrees)
    (coherent : s.watcher.filter.Coherent s.disk) (formed : s.watcher.log.WellFormed)
    (taken : s.step gitignore .deliver = some next) : next.Abreast gitignore since agrees := by
  obtain ⟨_, onward, evicted⟩ := log_deliver coherent formed taken
  refine ⟨Nat.le_trans abreast.behind onward, ?_, ?_⟩
  · -- If nothing is missed after the delivery, nothing was missed before it.
    intro held
    rw [untold_deliver coherent formed taken abreast.behind held]
    exact (abreast.settled (Nat.le_trans evicted held)).deliver coherent taken
  · intro held rel watched unspoken
    rw [untold_deliver coherent formed taken abreast.behind held] at unspoken
    exact abreast.silent (Nat.le_trans evicted held) rel
      ((watched_deliver coherent taken rel).mp watched) unspoken

end ChangeFeed

namespace ScanFeed

/-- Left alone, the steps of a scan give the answer of the method on what the walker yields. -/
theorem run_fsScan {s : ScanFeed Content Parsed} (idle : s.phase = .idle)
    (maxResults : Option Nat) {yielded : List (Option DirEntry)}
    (met : ∀ e, some e ∈ yielded → e.isFile = true → lists e.path = true ∧ s.there e.path = true) :
    ∃ taken, taken <+: yielded.map Action.entry ++ [.finish] ∧
      Transition.run (step gitignore lists) s (.start maxResults :: taken) =
        some (s.adopt (fsScan s.feed.watcher.log maxResults yielded)) := by
  -- The induction follows the entries, from whatever the walk holds already.
  have follow : ∀ walk steady, ∃ taken, taken <+: yielded.map Action.entry ++ [.finish] ∧
      Transition.run (step gitignore lists) { s with phase := .walking walk steady } taken =
        some (s.adopt (walk.entries yielded)) := by
    induction yielded with
    | nil => exact fun walk steady => ⟨[.finish], List.prefix_rfl, rfl⟩
    | cons e rest ih =>
      intro walk steady
      have fits : (e.all fun e => !e.isFile || (lists e.path && s.there e.path)) = true := by
        cases e with
        | none => rfl
        | some e =>
          cases file : e.isFile with
          | false => simp [file]
          | true => simp [met e List.mem_cons_self file]
      cases grown : walk.entry e with
      | none =>
        -- The cap ends the walk here, and the other entries are never asked for.
        refine ⟨[.entry e], by simp, ?_⟩
        rw [Transition.run_cons_eq_some]
        exact ⟨s.adopt (walk.finish true), by simp only [step, grown]; exact if_pos fits,
          by simp [Walk.entries, grown]⟩
      | some longer =>
        obtain ⟨taken, initial, ran⟩ := ih (fun f member => met f (List.mem_cons_of_mem _ member))
          longer steady
        refine ⟨.entry e :: taken, by simpa using initial, ?_⟩
        rw [Transition.run_cons_eq_some]
        exact ⟨{ s with phase := .walking longer steady },
          by simp only [step, grown]; exact if_pos fits, by simpa [Walk.entries, grown] using ran⟩
  obtain ⟨taken, initial, ran⟩ := follow (.start s.feed.watcher.log maxResults) s.there
  refine ⟨taken, initial, ?_⟩
  rw [Transition.run_cons_eq_some]
  exact ⟨_, by simp only [step, idle], ran⟩

/-- An idle tree that nobody has scanned yet, with every event delivered. -/
structure Fresh (s : ScanFeed Content Parsed) : Prop where
  idle : s.phase = .idle
  coherent : s.feed.watcher.filter.Coherent s.feed.disk
  formed : s.feed.watcher.log.WellFormed
  drained : s.feed.queue = []

/--
Operations leave the ignore rules alone and say what a rename left behind, and the third-party
walker ends only when it has yielded every listed file that was there during the whole walk.
-/
def Orderly (gitignore : Gitignore Content) (lists : RelPath → Bool)
    (s : ScanFeed Content Parsed) : Action Content → Prop
  | .op op => op.LeavesRules s.feed.disk ∧
      op.SaysWhatLeft gitignore s.feed.disk s.feed.watcher.filter.root
  | .finish =>
    match s.phase with
    | .walking walk steady => ∀ rel, lists rel = true → steady rel = true → rel ∈ walk.files
    | _ => True
  | _ => True

/-- What the log and the queue say about the scan, phase by phase. -/
def Account (gitignore : Gitignore Content) (lists : RelPath → Bool)
    (s : ScanFeed Content Parsed) : Prop :=
  match s.phase with
  | .idle => s.feed.Settled gitignore (s.feed.inFlight gitignore)
  -- A name that nothing speaks about has existed, or not, since the walk started.
  | .walking walk steady => (∀ rel ∈ walk.files, lists rel = true) ∧
      s.feed.Abreast gitignore walk.version fun rel =>
        steady rel = s.there rel ∧ (rel ∈ walk.files → s.there rel = true)
  -- A name that nothing speaks about is where the client believes it to be.
  | .scanned result => result.truncated = false →
      (∀ rel, s.feed.known rel = true → lists rel = true) ∧
      s.feed.Abreast gitignore s.feed.since fun rel => s.feed.known rel = s.listing lists rel

/-- The filter's cache and the log are in order, and so is the account of the scan. -/
structure Sound (gitignore : Gitignore Content) (lists : RelPath → Bool)
    (s : ScanFeed Content Parsed) : Prop where
  coherent : s.feed.watcher.filter.Coherent s.feed.disk
  formed : s.feed.watcher.log.WellFormed
  account : s.Account gitignore lists

/-- Before anything happens there is nothing to account for. -/
theorem Fresh.sound {s : ScanFeed Content Parsed} (fresh : s.Fresh) :
    s.Sound gitignore lists := by
  refine ⟨fresh.coherent, fresh.formed, ?_⟩
  -- Nothing is in flight, so nothing can name a wrong path or have a wrong last word.
  have empty : s.feed.inFlight gitignore = [] := by
    rw [ChangeFeed.inFlight, fresh.drained]
    rfl
  rw [Account, fresh.idle]
  show s.feed.Settled gitignore _
  rw [empty]
  exact ⟨by simp, by simp⟩

/-- An operation keeps the account: it touches no watched name that it does not speak about. -/
theorem Sound.op {s next : ScanFeed Content Parsed} (sound : s.Sound gitignore lists)
    {op : FileOp Content} (orderly : s.Orderly gitignore lists (.op op))
    (taken : s.step gitignore lists (.op op) = some next) : next.Sound gitignore lists := by
  obtain ⟨leaves, told⟩ := orderly
  obtain ⟨coherent, formed, account⟩ := sound
  simp only [step, Option.map_eq_some_iff] at taken
  obtain ⟨feed, moved, taken⟩ := taken
  obtain ⟨_, shape, _, after, _⟩ := ChangeFeed.step_op coherent leaves moved
  have watcher : feed.watcher = s.feed.watcher := by rw [shape]
  have stillFormed : feed.watcher.log.WellFormed := watcher ▸ formed
  obtain ⟨before, phase⟩ := s
  cases phase with
  | idle =>
    subst taken
    refine ⟨after, stillFormed, ?_⟩
    show feed.Settled gitignore (feed.inFlight gitignore)
    rw [ChangeFeed.inFlight_op coherent leaves moved]
    exact Settled.op account coherent leaves told moved
  | walking walk steady =>
    subst taken
    refine ⟨after, stillFormed, account.1, account.2.op coherent leaves told moved ?_⟩
    intro rel agrees same
    -- The file was there before the operation exactly if it is there afterwards.
    have untouched : there { feed, phase := .walking walk steady } rel =
        there { feed := before, phase := .walking walk steady } rel := same
    show (steady rel && there { feed, phase := .walking walk steady } rel) =
        there { feed, phase := .walking walk steady } rel ∧
      (rel ∈ walk.files → there { feed, phase := .walking walk steady } rel = true)
    rw [untouched, agrees.1, Bool.and_self]
    exact ⟨rfl, agrees.2⟩
  | scanned result =>
    subst taken
    have client : feed.known = before.known ∧ feed.since = before.since := by
      rw [shape]
      exact ⟨rfl, rfl⟩
    refine ⟨after, stillFormed, ?_⟩
    intro whole
    obtain ⟨listed, abreast⟩ := account whole
    refine ⟨fun rel known => listed rel (client.1 ▸ known), ?_⟩
    show feed.Abreast gitignore feed.since _
    rw [client.2]
    refine abreast.op coherent leaves told moved ?_
    intro rel agrees same
    have untouched : there { feed, phase := .scanned result } rel =
        there { feed := before, phase := .scanned result } rel := same
    show feed.known rel = (lists rel && there { feed, phase := .scanned result } rel)
    rw [client.1, untouched]
    exact agrees

/-- A delivery keeps the account: it moves records from the queue into the log. -/
theorem Sound.deliver {s next : ScanFeed Content Parsed} (sound : s.Sound gitignore lists)
    (taken : s.step gitignore lists .deliver = some next) : next.Sound gitignore lists := by
  obtain ⟨coherent, formed, account⟩ := sound
  simp only [step, Option.map_eq_some_iff] at taken
  obtain ⟨feed, moved, rfl⟩ := taken
  obtain ⟨_, _, shape, _, after, root⟩ := ChangeFeed.step_deliver coherent moved
  obtain ⟨stillFormed, _⟩ := ChangeFeed.log_deliver coherent formed moved
  have kept : feed.disk = s.feed.disk ∧ feed.known = s.feed.known ∧
      feed.since = s.feed.since := by
    rw [shape]
    exact ⟨rfl, rfl, rfl⟩
  have untouched : there { s with feed } = s.there := by
    funext rel
    rw [there, there, kept.1, root]
  obtain ⟨before, phase⟩ := s
  refine ⟨kept.1 ▸ after, stillFormed, ?_⟩
  cases phase with
  | idle =>
    -- What is left in flight is the newest part of what was there.
    obtain ⟨records, flown, _⟩ := inFlight_deliver coherent moved
    have settled : before.Settled gitignore (before.inFlight gitignore) := account
    rw [flown] at settled
    exact settled.newest.deliver coherent moved
  | walking walk steady =>
    refine ⟨account.1, ?_⟩
    rw [untouched]
    exact account.2.deliver coherent formed moved
  | scanned result =>
    intro whole
    obtain ⟨listed, abreast⟩ := account whole
    have same : ∀ rel, feed.known rel = before.known rel := fun rel => by rw [kept.2.1]
    refine ⟨fun rel known => listed rel (same rel ▸ known), ?_⟩
    show feed.Abreast gitignore feed.since fun rel =>
      feed.known rel = (lists rel && there { feed, phase := .scanned result } rel)
    rw [untouched, kept.2.1, kept.2.2]
    exact abreast.deliver coherent formed moved

/-- A walk starts with an empty list at the current version, behind what is still in flight. -/
theorem Sound.start {s next : ScanFeed Content Parsed} (sound : s.Sound gitignore lists)
    {maxResults : Option Nat} (taken : s.step gitignore lists (.start maxResults) = some next) :
    next.Sound gitignore lists := by
  obtain ⟨coherent, formed, account⟩ := sound
  simp only [step] at taken
  cases phase : s.phase with
  | walking walk steady => simp [phase] at taken
  | scanned result => simp [phase] at taken
  | idle =>
    simp only [phase, Option.some.injEq] at taken
    subst taken
    rw [Account, phase] at account
    refine ⟨coherent, formed, by simp [Walk.start], Nat.le_refl _, ?_, ?_⟩
    · -- A scan that starts takes the current version, from which nothing is untold but the queue.
      intro _
      show s.feed.Settled gitignore (s.feed.untold gitignore s.feed.watcher.log.version)
      rw [ChangeFeed.untold, ChangeLog.pending, formed.window_current]
      exact account
    · intro _ rel _ _
      exact ⟨rfl, by simp [Walk.start]⟩

/-- An entry that the walker yields is a listed file that exists. -/
theorem Sound.entry {s next : ScanFeed Content Parsed} (sound : s.Sound gitignore lists)
    {yielded : Option DirEntry} (taken : s.step gitignore lists (.entry yielded) = some next) :
    next.Sound gitignore lists := by
  obtain ⟨coherent, formed, account⟩ := sound
  simp only [step] at taken
  cases phase : s.phase with
  | idle => simp [phase] at taken
  | scanned result => simp [phase] at taken
  | walking walk steady =>
    rw [Account, phase] at account
    simp only [phase] at taken
    split at taken
    · rename_i fits
      cases grown : walk.entry yielded with
      | none =>
        -- The cap is reached, and nothing is promised about a truncated answer.
        simp only [grown, Option.some.injEq] at taken
        subst taken
        refine ⟨coherent, formed, ?_⟩
        intro whole
        cases whole
      | some longer =>
        simp only [grown, Option.some.injEq] at taken
        subst taken
        refine ⟨coherent, formed, ?_⟩
        cases yielded with
        | none =>
          simp only [Walk.entry, Option.some.injEq] at grown
          exact grown ▸ account
        | some e =>
          simp only [Walk.entry] at grown
          split at grown
          · simp only [Option.some.injEq] at grown
            exact grown ▸ account
          · rename_i file
            split at grown
            · cases grown
            · simp only [Option.some.injEq] at grown
              subst grown
              simp only [Bool.not_eq_true', Bool.not_eq_false] at file
              simp only [Option.all_some, file, Bool.not_true, Bool.false_or,
                Bool.and_eq_true] at fits
              refine ⟨?_, account.2.behind, account.2.settled, ?_⟩
              · intro rel member
                rcases List.mem_append.mp member with old | new
                · exact account.1 rel old
                · rw [List.mem_singleton.mp new]
                  exact fits.1
              · intro held rel watched unspoken
                obtain ⟨since, met⟩ := account.2.silent held rel watched unspoken
                refine ⟨since, ?_⟩
                intro member
                rcases List.mem_append.mp member with old | new
                · exact met old
                · rw [List.mem_singleton.mp new]
                  exact fits.2
    · cases taken

/-- When the walk is complete, the client has every file that nothing speaks about. -/
theorem Sound.finish {s next : ScanFeed Content Parsed} (sound : s.Sound gitignore lists)
    (orderly : s.Orderly gitignore lists .finish)
    (taken : s.step gitignore lists .finish = some next) : next.Sound gitignore lists := by
  obtain ⟨coherent, formed, account⟩ := sound
  simp only [step] at taken
  cases phase : s.phase with
  | idle => simp [phase] at taken
  | scanned result => simp [phase] at taken
  | walking walk steady =>
    rw [Account, phase] at account
    simp only [Orderly, phase] at orderly
    simp only [phase, Option.some.injEq] at taken
    subst taken
    refine ⟨coherent, formed, ?_⟩
    intro _
    -- Adopting the result changes the client alone, about which the records say nothing.
    refine ⟨fun rel member => account.1 rel (of_decide_eq_true member), account.2.behind,
      fun held => ⟨(account.2.settled held).named, (account.2.settled held).lastWord⟩, ?_⟩
    intro held rel watched unspoken
    obtain ⟨since, met⟩ := account.2.silent held rel watched unspoken
    show decide (rel ∈ walk.files) = (lists rel && s.there rel)
    -- A file met by the walk is still there, and a listed one that is there was met.
    rw [Bool.eq_iff_iff, decide_eq_true_eq, Bool.and_eq_true]
    exact ⟨fun member => ⟨account.1 rel member, met member⟩,
      fun both => orderly rel both.1 (since.trans both.2)⟩

/-- Every orderly step keeps the account. -/
theorem Sound.step {s next : ScanFeed Content Parsed} {action : Action Content}
    (sound : s.Sound gitignore lists) (orderly : s.Orderly gitignore lists action)
    (taken : s.step gitignore lists action = some next) : next.Sound gitignore lists := by
  -- One lemma for each kind of step.
  cases action with
  | op op => exact sound.op orderly taken
  | deliver => exact sound.deliver taken
  | start maxResults => exact sound.start taken
  | entry yielded => exact sound.entry taken
  | finish => exact sound.finish orderly taken

/--
The scan and the log complete each other: no path that the walk met counts as never seen, no
existing file that the scan passes over has changed, and no listed file that the log passes over
has come or gone behind the walk.
-/
structure Undisturbed (gitignore : Gitignore Content) (lists : RelPath → Bool)
    (s : ScanFeed Content Parsed) : Prop where
  met : ∀ rel, s.feed.known rel = true → ¬ s.feed.watcher.log.Suppressed s.feed.since rel
  passedOver : ∀ rel, lists rel = false → s.there rel = true →
    ∀ e ∈ s.feed.watcher.log.window s.feed.since, e.path ≠ rel
  unwatched : ∀ rel, lists rel = true → ¬ s.feed.Watched gitignore rel →
    s.feed.known rel = s.there rel

/-- A project with one file, which nobody has scanned yet. -/
def oneFile : ScanFeed Unit Unit :=
  { feed :=
      { disk := fun path => if path = ["repo", "a"] then some () else none
        queue := []
        watcher :=
          { filter := Filter.new ["repo"]
            log := ChangeLog.withCapacity 64
            parseCache := { capacity := 0, entries := [] } }
        known := fun _ => false
        since := 0 }
    phase := .idle }

end ScanFeed

end McpCli
