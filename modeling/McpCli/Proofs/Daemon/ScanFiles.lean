import McpCli.Proofs.Daemon.SearchFiles

/-! The files that a scan lists, and those of which the watcher records the changes. -/

namespace McpCli

namespace IgnoreRules

variable {Content : Type} {rules : IgnoreRules Content} {gitignore : Gitignore Content}
  {disk : Disk Content} {root : AbsPath} {sources : WalkSources}

/-- On the way to a file, only the `.gitignore` files of the project have a say. -/
structure Plain (sources : WalkSources) (file : RelPath) : Prop where
  dotIgnore : ∀ entry, entry <+: file →
    sources.dotIgnore entry (decide (entry ≠ file)) = .none
  excludes : ∀ entry, entry <+: file →
    sources.excludes entry (decide (entry ≠ file)) = .none
  repository : ∀ dir, dir <+: file → dir ≠ [] → sources.hasGit dir = false

/-- What the nearest `.gitignore` with a rule for it says of an entry on the way to a file. -/
def nearest (rules : IgnoreRules Content) (disk : Disk Content) (root : AbsPath)
    (file entry : RelPath) : Match :=
  rules.ruling disk root (upwards entry.dropLast) entry (decide (entry ≠ file))

/-- An entry is not excluded, and if its name is hidden, it is whitelisted. -/
def Shown (rules : IgnoreRules Content) (disk : Disk Content) (root : AbsPath)
    (file entry : RelPath) : Prop :=
  rules.nearest disk root file entry ≠ .ignore ∧
    (isHidden entry = true → rules.nearest disk root file entry = .whitelist)

/-- Without repositories of their own, all directories are asked. -/
theorem Plain.upToRepository {file entry : RelPath} (plain : Plain sources file)
    (onWay : entry <+: file) :
    upToRepository sources.hasGit (upwards entry.dropLast) = upwards entry.dropLast := by
  have sorted := upwards_sorted entry.dropLast
  -- Only the last directory, the project root, may have one.
  have free : ∀ repo ∈ upwards entry.dropLast, repo ≠ [] → sources.hasGit repo = false := by
    intro repo member nonempty
    refine plain.repository repo ?_ nonempty
    exact ((mem_upwards.mp member).trans (List.dropLast_prefix entry)).trans onWay
  generalize upwards entry.dropLast = dirs at sorted free
  induction dirs with
  | nil => rfl
  | cons dir rest ih =>
    obtain ⟨longest, sorted⟩ := List.pairwise_cons.mp sorted
    have later := ih sorted fun repo member => free repo (List.mem_cons_of_mem dir member)
    unfold IgnoreRules.upToRepository
    cases rest with
    | nil => split <;> rfl
    | cons next more =>
      have nonempty : dir ≠ [] := by
        rintro rfl
        exact absurd (longest next List.mem_cons_self) (Nat.not_lt_zero _)
      rw [free dir List.mem_cons_self nonempty, later]
      rfl

/-- A scan takes an entry exactly if it is shown. -/
theorem Plain.passes {file entry : RelPath} (plain : Plain sources file)
    (onWay : entry <+: file) :
    rules.passes disk root { sources with overrides := fun _ _ => .none } true entry
        (decide (entry ≠ file)) = true ↔ rules.Shown disk root file entry := by
  -- The other sources are silent, so the nearest rule or the name itself decides.
  have dotted := plain.dotIgnore entry onWay
  have excluded := plain.excludes entry onWay
  unfold IgnoreRules.passes Shown nearest
  simp only [plain.upToRepository onWay, dotted, excluded, Match.first]
  cases rules.ruling disk root (upwards entry.dropLast) entry (decide (entry ≠ file)) with
  | none => cases isHidden entry <;> simp [Match.first]
  | ignore => simp [Match.first]
  | whitelist => simp [Match.first]

/-- A scan comes to a file exactly if every entry on the way is shown. -/
theorem Plain.reached {file : RelPath} (plain : Plain sources file) :
    rules.reached disk root { sources with overrides := fun _ _ => .none } true [] file = true ↔
      ∀ entry, entry <+: file → entry ≠ [] → rules.Shown disk root file entry := by
  simp only [IgnoreRules.reached, List.nil_prefix, decide_true, Bool.true_and, List.all_eq_true,
    mem_upwards, Bool.or_eq_true, List.length_nil, Nat.le_zero, List.length_eq_zero_iff,
    decide_eq_true_eq]
  -- Without overrides, each entry on the way is passed by the rules alone.
  constructor
  · intro all entry onWay nonempty
    rcases all entry onWay with empty | passes
    · exact absurd empty nonempty
    · exact (plain.passes onWay).mp passes
  · intro all entry onWay
    by_cases empty : entry = []
    · exact Or.inl empty
    · exact Or.inr ((plain.passes onWay).mpr (all entry onWay empty))

/-- What a rule excludes is not shown. -/
theorem Plain.nearest {file dir entry : RelPath} (plain : Plain sources file)
    (excludes : rules.Excludes disk root file dir entry) :
    rules.nearest disk root file entry = .ignore := by
  have onWay := excludes.placed.onWay
  -- No repository of its own stands between the rule and the entry.
  have joined : ¬ CutOff sources.hasGit file dir entry := by
    rintro ⟨repo, placed, longer, own⟩
    have nonempty : repo ≠ [] := by
      rintro rfl
      exact absurd longer (Nat.not_lt_zero _)
    rw [plain.repository repo (placed.above.trans onWay) nonempty] at own
    cases own
  have ruling := excludes.ruling joined
  rw [plain.upToRepository onWay] at ruling
  exact ruling

end IgnoreRules

end McpCli
