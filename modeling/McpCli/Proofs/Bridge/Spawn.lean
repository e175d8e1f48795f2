import McpCli.Bridge.Spawn

/-! How long the bridge waits for a daemon that it has spawned. -/

namespace McpCli

open Transition

variable {Stream : Type}

/-- What connecting has come to is told in other words only if it is a failure. -/
theorem retryConnect_snd (clock : Clock ErrorKind Stream) (budget now : Nat) :
    (retryConnect clock budget now).2 =
      match (retry clock ErrorKind.isConnectRetryable (now + budget) initialBackoff now).2 with
      | .ok stream => .ok stream
      | .error reason => .error (.ofGivenUp reason) := by
  rw [retryConnect]
  obtain ⟨times, outcome⟩ :=
    retry clock ErrorKind.isConnectRetryable (now + budget) initialBackoff now
  cases outcome with
  | ok stream => rfl
  | error reason => rfl

/--
A bridge that has spawned a daemon connects to it eleven times at most. If the daemon accepts
connections from some time on, and until then each refusal can be retried and comes before the
budget is over, there is a stream, at most one longest pause after that time when nothing else takes
any. It is given up as late only when the budget is over.
-/
theorem autospawn_connects {clock : Clock ErrorKind Stream} {now after : Nat} {kind : ErrorKind}
    (away : (clock.attempt now).1 = .error kind) (ended : (clock.attempt now).2.val = after)
    (retryable : kind.isConnectRetryable = true)
    {spawn : Nat → Except String (Nat × Clock ErrorKind Stream)} {spawned : Nat}
    {clock' : Clock ErrorKind Stream} (started : spawn after = .ok (spawned, clock')) :
    ∃ times outcome, connectWithAutospawn true clock spawn now = (now :: times, outcome) ∧
      times.length ≤ 11 ∧
      (∀ opens, Opens clock' ErrorKind.isConnectRetryable (spawned + connectBudget) spawned opens →
        (∃ stream, outcome = .ok stream) ∧
          (clock'.Prompt → ∀ last ∈ times.getLast?,
            last = spawned ∨ last < opens + maxBackoff)) ∧
      (∀ kind, outcome = .error (.late kind) → ∃ last ∈ times.getLast?,
        spawned + connectBudget ≤ (clock'.attempt last).2.val) := by
  have tried := tried_retry clock' ErrorKind.isConnectRetryable (spawned + connectBudget)
    initialBackoff spawned
  refine ⟨_, (retryConnect clock' connectBudget spawned).2, ?_, tried.length_le ?_,
    fun opens inTime => ⟨?_, fun prompt => tried.soon prompt inTime.works⟩, fun kind late => ?_⟩
  · -- The first attempt is the one that has led to the spawn.
    cases attempted : clock.attempt now with
    | mk outcome ends =>
      rw [attempted] at away ended
      subst away ended
      rw [connectWithAutospawn, attempted]
      simp only [retryable, Bool.and_self, if_true, started]
      rfl
  · -- Ten pauses take longer than the budget.
    have ten : initialBackoff.total 10 = 2295 := by decide
    rw [ten, connectBudget]
    omega
  · obtain ⟨stream, worked⟩ := tried.reaches inTime
    refine ⟨stream, ?_⟩
    rw [retryConnect_snd, worked]
  · obtain ⟨last, ends, _, comes⟩ := tried.last
    refine ⟨last, ends, ?_⟩
    rw [retryConnect_snd] at late
    -- Only what was given up as late is told to be so.
    split at comes
    · rename_i stream given
      rw [given] at late
      cases late
    · rename_i error given
      rw [given] at late
      cases late
    · exact comes.2.2

/-- A world without a daemon. -/
def noDaemon : Clock ErrorKind Unit where
  attempt now := (.error .notFound, ⟨now, Nat.le_refl now⟩)
  pause now length := ⟨now + length, Nat.le_refl _⟩

/-- A daemon that accepts connections from some time on. -/
def acceptsFrom (opens : Nat) : Clock ErrorKind Unit where
  attempt now :=
    (if now < opens then .error .connectionRefused else .ok (), ⟨now, Nat.le_refl now⟩)
  pause now length := ⟨now + length, Nat.le_refl _⟩

/-- A daemon that takes a second to start is reached in good time. -/
theorem autospawn_connects_second :
    ∃ times outcome, connectWithAutospawn true noDaemon
        (fun now => .ok (now + 5, acceptsFrom (now + 1000))) 0 = (0 :: times, outcome) ∧
      (∃ stream, outcome = .ok stream) ∧ ∀ last ∈ times.getLast?, last = 5 ∨ last < 1320 := by
  obtain ⟨times, outcome, connected, _, reached, _⟩ :=
    @autospawn_connects Unit noDaemon 0 0 .notFound rfl rfl rfl
      (fun now => .ok (now + 5, acceptsFrom (now + 1000))) 5 (acceptsFrom 1000) rfl
  have inTime :
      Opens (acceptsFrom 1000) ErrorKind.isConnectRetryable (5 + connectBudget) 5 1000 := by
    refine ⟨fun time opened => ?_, fun time error _ early failed => ?_⟩
    · exact ⟨(), if_neg (Nat.not_lt.mpr opened)⟩
    -- Whoever comes too early is refused, and has time left.
    have refused : (acceptsFrom 1000).attempt time =
        (.error .connectionRefused, ⟨time, Nat.le_refl time⟩) := by
      simp [acceptsFrom, early]
    rw [refused] at failed ⊢
    cases failed
    exact ⟨rfl, Nat.lt_of_lt_of_le early (by decide)⟩
  obtain ⟨stream, soon⟩ := reached 1000 inTime
  exact ⟨times, outcome, connected, stream, soon ⟨fun _ => rfl, fun _ _ => rfl⟩⟩

end McpCli
