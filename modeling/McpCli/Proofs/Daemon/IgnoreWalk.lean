import McpCli.Daemon.IgnoreWalk
import McpCli.Proofs.Daemon.Watcher

/-! The rule that decides whether the filter keeps a path, and the rules that a walk asks. -/

namespace McpCli

/-- Of items that get ever shorter, the longest one that says anything decides. -/
theorem Match.first_map_eq {Item : Type} {size : Item → Nat} {items : List Item}
    (sorted : items.Pairwise fun item other => size other < size item) {verdict : Item → Match}
    {decided : Match} (decisive : decided ≠ .none) :
    Match.first (items.map verdict) = decided ↔
      ∃ item ∈ items, verdict item = decided ∧
        ∀ other ∈ items, size item < size other → verdict other = .none := by
  induction items with
  | nil =>
    simp only [List.map_nil, Match.first, List.not_mem_nil, false_and, exists_false, iff_false]
    exact fun same => decisive same.symm
  | cons item rest ih =>
    obtain ⟨longest, sorted⟩ := List.pairwise_cons.mp sorted
    have later := ih sorted
    rw [List.map_cons]
    -- The first item is longer than all others, so it decides if it says anything.
    have settled : verdict item ≠ .none → (verdict item = decided ↔
        ∃ it ∈ item :: rest, verdict it = decided ∧
          ∀ other ∈ item :: rest, size it < size other → verdict other = .none) := by
      intro speaks
      constructor
      · intro same
        refine ⟨item, List.mem_cons_self, same, ?_⟩
        intro other member longer
        rcases List.mem_cons.mp member with rfl | within
        · omega
        · have := longest other within
          omega
      · rintro ⟨it, member, same, silent⟩
        rcases List.mem_cons.mp member with rfl | within
        · exact same
        · exact absurd (silent item List.mem_cons_self (longest it within)) speaks
    cases own : verdict item with
    | none =>
      rw [Match.first, later]
      constructor
      · rintro ⟨it, member, same, silent⟩
        refine ⟨it, List.mem_cons_of_mem item member, same, ?_⟩
        intro other within longer
        rcases List.mem_cons.mp within with rfl | within
        · exact own
        · exact silent other within longer
      · rintro ⟨it, member, same, silent⟩
        rcases List.mem_cons.mp member with rfl | within
        · rw [own] at same
          exact absurd same.symm decisive
        · exact ⟨it, within, same,
            fun other member => silent other (List.mem_cons_of_mem item member)⟩
    | ignore =>
      rw [own] at settled
      exact settled (by decide)
    | whitelist =>
      rw [own] at settled
      exact settled (by decide)

/-- The paths from one up to the root are its prefixes. -/
@[simp] theorem mem_upwards {path entry : RelPath} : entry ∈ upwards path ↔ entry <+: path := by
  simp [upwards]

/-- The paths from one up to the root get ever shorter. -/
theorem upwards_sorted (path : RelPath) :
    (upwards path).Pairwise fun entry other => other.length < entry.length := by
  unfold upwards
  rw [List.pairwise_reverse]
  induction path with
  | nil => simp
  | cons name rest ih =>
    rw [List.inits_cons, List.pairwise_cons]
    refine ⟨?_, ?_⟩
    · -- Every longer path has the first name in front, so the empty path is the shortest.
      intro other member
      obtain ⟨below, _, same⟩ := List.mem_map.mp member
      rw [← same]
      exact Nat.succ_pos _
    · rw [List.pairwise_map]
      exact ih.imp fun shorter => Nat.succ_lt_succ shorter

/-- What is above an entry on the way to a path is above the path. -/
theorem prefix_dropLast {dir entry path : RelPath} (above : dir <+: entry)
    (strictly : dir.length < entry.length) (onWay : entry <+: path) : dir <+: path.dropLast := by
  -- Both are prefixes of the path, and the directory is the shorter one.
  have shorter := onWay.length_le
  refine List.prefix_of_prefix_length_le (above.trans onWay) (List.dropLast_prefix path) ?_
  rw [List.length_dropLast]
  omega

/-- A directory above an entry, and what the rules of the one may say of the other. -/
structure Above (dir entry path : RelPath) : Prop where
  above : dir <+: entry
  strictly : dir.length < entry.length
  onWay : entry <+: path

/-- The filter asks about the one pair before the other. -/
def Nearer (dir entry dir' entry' : RelPath) : Prop :=
  dir'.length < dir.length ∨ dir.length = dir'.length ∧ entry'.length < entry.length

/-- Of two placed pairs one is nearer, or they are the same. -/
theorem Above.total {path dir entry dir' entry' : RelPath} (placed : Above dir entry path)
    (other : Above dir' entry' path) :
    Nearer dir entry dir' entry' ∨ Nearer dir' entry' dir entry ∨ dir = dir' ∧ entry = entry' := by
  unfold Nearer
  -- Prefixes of one path are the same as soon as they are of the same length.
  by_cases sameDir : dir.length = dir'.length
  · by_cases sameEntry : entry.length = entry'.length
    · right
      right
      have dirs := (List.prefix_of_prefix_length_le (placed.above.trans placed.onWay)
        (other.above.trans other.onWay) (Nat.le_of_eq sameDir)).eq_of_length sameDir
      have entries := (List.prefix_of_prefix_length_le placed.onWay other.onWay
        (Nat.le_of_eq sameEntry)).eq_of_length sameEntry
      exact ⟨dirs, entries⟩
    · omega
  · omega

namespace IgnoreRules

variable {Content : Type} {rules : IgnoreRules Content} {disk : Disk Content} {root : AbsPath}
  {gitignore : Gitignore Content}

/-- A rule that decides about an entry on the way to a path, with no nearer one that decides. -/
structure Decides (rules : IgnoreRules Content) (disk : Disk Content) (root : AbsPath)
    (path : RelPath) (decided : Match) (dir entry : RelPath) : Prop where
  placed : Above dir entry path
  verdict : rules.verdict disk root dir entry (decide (entry ≠ path)) = decided
  nearest : ∀ {dir' entry'}, Above dir' entry' path → Nearer dir' entry' dir entry →
    rules.verdict disk root dir' entry' (decide (entry' ≠ path)) = .none

/-- The entries on the way from a directory to a path, the path first. -/
def between (path dir : RelPath) : List RelPath :=
  (upwards path).filter fun entry => dir.length < entry.length

/-- The rule of one directory that excludes an entry, when those of deeper ones say nothing. -/
structure Excludes (rules : IgnoreRules Content) (disk : Disk Content) (root : AbsPath)
    (path dir entry : RelPath) : Prop where
  placed : Above dir entry path
  verdict : rules.verdict disk root dir entry (decide (entry ≠ path)) = .ignore
  deeper : ∀ {other}, Above other entry path → dir.length < other.length →
    rules.verdict disk root other entry (decide (entry ≠ path)) = .none

/-- The entry for which a path is not kept is excluded. -/
theorem Decides.excludes {path dir entry : RelPath}
    (decides : rules.Decides disk root path .ignore dir entry) :
    rules.Excludes disk root path dir entry :=
  ⟨decides.placed, decides.verdict, fun other longer => decides.nearest other (Or.inl longer)⟩

/-- Of ever shorter directories, those are asked behind which no repository begins. -/
theorem mem_upToRepository {hasGit : RelPath → Bool} {dirs : List RelPath}
    (sorted : dirs.Pairwise fun dir other => other.length < dir.length) {dir : RelPath} :
    dir ∈ upToRepository hasGit dirs ↔
      dir ∈ dirs ∧ ∀ repo ∈ dirs, dir.length < repo.length → hasGit repo = false := by
  induction dirs with
  | nil => simp [upToRepository]
  -- The induction looks at the deepest directory, behind which nothing else can begin.
  | cons top rest ih =>
    obtain ⟨longest, sorted⟩ := List.pairwise_cons.mp sorted
    have later := ih sorted
    have topAsked : ∀ repo ∈ top :: rest, top.length < repo.length → hasGit repo = false := by
      intro repo member longer
      rcases List.mem_cons.mp member with rfl | within
      · omega
      · have := longest repo within
        omega
    unfold upToRepository
    cases own : hasGit top with
    | true =>
      simp only [if_true, List.mem_singleton]
      constructor
      · rintro rfl
        exact ⟨List.mem_cons_self, topAsked⟩
      · intro both
        obtain ⟨member, free⟩ := both
        rcases List.mem_cons.mp member with rfl | within
        · rfl
        · have := free top List.mem_cons_self (longest dir within)
          rw [own] at this
          cases this
    | false =>
      simp only [Bool.false_eq_true, if_false, List.mem_cons, later]
      constructor
      · rintro (rfl | ⟨within, free⟩)
        · exact ⟨Or.inl rfl, fun repo member => topAsked repo (List.mem_cons.mpr member)⟩
        · refine ⟨Or.inr within, ?_⟩
          rintro repo (rfl | member) longer
          · exact own
          · exact free repo member longer
      · rintro ⟨rfl | within, free⟩
        · exact Or.inl rfl
        · exact Or.inr ⟨within, fun repo member => free repo (Or.inr member)⟩

/-- The directories that are asked get ever shorter. -/
theorem upToRepository_sublist (hasGit : RelPath → Bool) (dirs : List RelPath) :
    (upToRepository hasGit dirs).Sublist dirs := by
  -- The list is cut off behind the repository.
  induction dirs with
  | nil => exact List.Sublist.refl []
  | cons dir rest ih =>
    unfold upToRepository
    split
    · exact (List.nil_sublist rest).cons_cons dir
    · exact ih.cons_cons dir

/-- A repository of its own between an entry and the directory whose rule excludes it. -/
def CutOff (hasGit : RelPath → Bool) (path dir entry : RelPath) : Prop :=
  ∃ repo, Above repo entry path ∧ dir.length < repo.length ∧ hasGit repo = true

/-- A walk asks the rule that excludes an entry, unless a repository begins before it. -/
theorem Excludes.ruling {path dir entry : RelPath}
    (excludes : rules.Excludes disk root path dir entry) {hasGit : RelPath → Bool}
    (joined : ¬ CutOff hasGit path dir entry) :
    rules.ruling disk root (upToRepository hasGit (upwards entry.dropLast)) entry
      (decide (entry ≠ path)) = .ignore := by
  have sorted := upwards_sorted entry.dropLast
  have placed := excludes.placed
  have nonempty : 0 < entry.length := by
    have := placed.strictly
    omega
  -- Whatever is asked about the entry is above it.
  have above : ∀ {other}, other ∈ upwards entry.dropLast → Above other entry path := by
    intro other member
    have onWay := mem_upwards.mp member
    have shorter := onWay.length_le
    rw [List.length_dropLast] at shorter
    exact ⟨onWay.trans (List.dropLast_prefix entry), by omega, placed.onWay⟩
  have asked : dir ∈ upwards entry.dropLast :=
    mem_upwards.mpr (prefix_dropLast placed.above placed.strictly (List.prefix_refl entry))
  -- Of the directories that are asked, the one of the rule is the deepest with a verdict.
  unfold IgnoreRules.ruling
  rw [Match.first_map_eq (sorted.sublist (upToRepository_sublist hasGit _)) (by decide)]
  refine ⟨dir, (mem_upToRepository sorted).mpr ⟨asked, ?_⟩, excludes.verdict, ?_⟩
  · intro repo member longer
    cases own : hasGit repo with
    | false => rfl
    | true => exact absurd ⟨repo, above member, longer, own⟩ joined
  · intro other member longer
    exact excludes.deeper (above ((upToRepository_sublist hasGit _).subset member)) longer

end IgnoreRules

end McpCli
