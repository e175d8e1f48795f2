import Mathlib.Data.List.Basic
import Mathlib.Order.Lattice

/-! Attempts that are made again and again, with longer and longer pauses, up to a deadline. -/

namespace Transition

variable {ε α : Type*}

/-- What comes of an attempt at some time, and when; and when a pause is over. -/
structure Clock (ε α : Type*) where
  attempt : (now : Nat) → Except ε α × { after : Nat // now ≤ after }
  /-- A pause may be longer than it has to be. -/
  pause : (now length : Nat) → { after : Nat // now + length ≤ after }

/-- Neither attempts nor pauses take longer than they have to. -/
structure Clock.Prompt (clock : Clock ε α) : Prop where
  attempt : ∀ now, (clock.attempt now).2.val = now
  pause : ∀ now length, (clock.pause now length).val = now + length

/-- Why no more attempts are made. -/
inductive GivenUp (ε : Type*) where
  /-- It is of no use to try again. -/
  | hopeless (error : ε)
  | late (error : ε)
  deriving DecidableEq, Repr

/-- How long a pause is: it is positive, and no longer than the longest one. -/
structure Backoff (longest : Nat) where
  length : Nat
  positive : 0 < length
  bounded : length ≤ longest

/-- The pause behind the next attempt is twice as long, up to the longest one. -/
def Backoff.next {longest : Nat} (backoff : Backoff longest) : Backoff longest where
  length := min (backoff.length * 2) longest
  positive := by
    have positive := backoff.positive
    have bounded := backoff.bounded
    omega
  bounded := Nat.min_le_right _ _

/-- The pauses behind so many attempts together. -/
def Backoff.total {longest : Nat} (backoff : Backoff longest) : Nat → Nat
  | 0 => 0
  | n + 1 => backoff.length + backoff.next.total n

/-- Try until it works, it is of no use, or it is too late. The times of the attempts come first. -/
def retry (clock : Clock ε α) (useful : ε → Bool) {longest : Nat} (deadline : Nat)
    (backoff : Backoff longest) (now : Nat) : List Nat × Except (GivenUp ε) α :=
  match clock.attempt now with
  | (.ok value, _) => ([now], .ok value)
  | (.error error, after) =>
    if useful error then
      if _ : after.val < deadline then
        let rest := retry clock useful deadline backoff.next (clock.pause after backoff.length).val
        (now :: rest.1, rest.2)
      else ([now], .error (.late error))
    else ([now], .error (.hopeless error))
termination_by deadline - now
decreasing_by
  -- A pause is positive, so that the next attempt is later.
  have paused := (clock.pause after backoff.length).property
  have positive := backoff.positive
  have := after.property
  omega

variable {clock : Clock ε α} {useful : ε → Bool} {longest deadline : Nat}

/-- What has come of the attempts from some time on. -/
inductive Tried (clock : Clock ε α) (useful : ε → Bool) {longest : Nat} (deadline : Nat) :
    Backoff longest → Nat → List Nat × Except (GivenUp ε) α → Prop
  | worked {backoff : Backoff longest} {now : Nat} {value : α}
      (worked : (clock.attempt now).1 = .ok value) :
      Tried clock useful deadline backoff now ([now], .ok value)
  | hopeless {backoff : Backoff longest} {now : Nat} {error : ε}
      (failed : (clock.attempt now).1 = .error error) (useless : useful error = false) :
      Tried clock useful deadline backoff now ([now], .error (.hopeless error))
  | late {backoff : Backoff longest} {now : Nat} {error : ε}
      (failed : (clock.attempt now).1 = .error error) (use : useful error = true)
      (late : deadline ≤ (clock.attempt now).2) :
      Tried clock useful deadline backoff now ([now], .error (.late error))
  | again {backoff : Backoff longest} {now : Nat} {error : ε}
      {rest : List Nat × Except (GivenUp ε) α}
      (failed : (clock.attempt now).1 = .error error) (use : useful error = true)
      (early : (clock.attempt now).2 < deadline)
      (later : Tried clock useful deadline backoff.next
        (clock.pause (clock.attempt now).2 backoff.length) rest) :
      Tried clock useful deadline backoff now (now :: rest.1, rest.2)

/-- The loop does one of these at each attempt. -/
theorem tried_retry (clock : Clock ε α) (useful : ε → Bool) (deadline : Nat)
    (backoff : Backoff longest) (now : Nat) :
    Tried clock useful deadline backoff now (retry clock useful deadline backoff now) := by
  -- The cases are those of the loop: done, tried again, too late, and useless to go on.
  induction backoff, now using retry.induct clock useful deadline with
  | case1 backoff now value after tried =>
    rw [retry, tried]
    exact .worked (congrArg Prod.fst tried)
  | case2 backoff now error after tried use early ih =>
    rw [retry, tried]
    simp only [use, if_true, dif_pos early]
    have same : (clock.attempt now).2 = after := congrArg Prod.snd tried
    refine .again (congrArg Prod.fst tried) use (by rw [same]; exact early) ?_
    rw [same]
    exact ih
  | case3 backoff now error after tried use late =>
    rw [retry, tried]
    simp only [use, if_true, dif_neg late]
    have same : (clock.attempt now).2 = after := congrArg Prod.snd tried
    exact .late (congrArg Prod.fst tried) use (by rw [same]; exact Nat.not_lt.mp late)
  | case4 backoff now error after tried useless =>
    rw [retry, tried]
    simp only [useless, Bool.false_eq_true, if_false]
    exact .hopeless (congrArg Prod.fst tried) (Bool.eq_false_iff.mpr useless)

variable {backoff : Backoff longest} {now : Nat} {rest : List Nat × Except (GivenUp ε) α}

/-- There are no more attempts than pauses fit in front of the deadline, and one more. -/
theorem Tried.length_le (tried : Tried clock useful deadline backoff now rest) {n : Nat}
    (enough : deadline ≤ now + backoff.total n) : rest.1.length ≤ n + 1 := by
  induction tried generalizing n with
  | worked worked => exact Nat.le_add_left 1 n
  | hopeless failed useless => exact Nat.le_add_left 1 n
  | late failed use late => exact Nat.le_add_left 1 n
  | @again backoff now error rest failed use early later ih =>
    have after := (clock.attempt now).2.property
    cases n with
    | zero =>
      -- The deadline is over already, so that no attempt is made again.
      rw [Backoff.total] at enough
      omega
    | succ n =>
      -- The rest has what is left when the first pause is over.
      have paused := (clock.pause (clock.attempt now).2 backoff.length).property
      rw [Backoff.total] at enough
      have fewer := @ih n (by omega)
      rw [List.length_cons]
      omega

/-- There is a last attempt, and what comes of it is what comes of all of them. -/
theorem Tried.last (tried : Tried clock useful deadline backoff now rest) :
    ∃ last ∈ rest.1.getLast?, now ≤ last ∧ match rest.2 with
      | .ok value => (clock.attempt last).1 = .ok value
      | .error (.hopeless error) => (clock.attempt last).1 = .error error ∧ useful error = false
      | .error (.late error) => (clock.attempt last).1 = .error error ∧ useful error = true ∧
          deadline ≤ (clock.attempt last).2 := by
  induction tried with
  | worked worked => exact ⟨_, rfl, Nat.le_refl _, worked⟩
  | hopeless failed useless => exact ⟨_, rfl, Nat.le_refl _, failed, useless⟩
  | late failed use late => exact ⟨_, rfl, Nat.le_refl _, failed, use, late⟩
  | @again backoff now error rest failed use early later ih =>
    obtain ⟨last, ends, after, comes⟩ := ih
    have tried := (clock.attempt now).2.property
    have paused := (clock.pause (clock.attempt now).2 backoff.length).property
    -- The last one of the rest is the last one, and later still.
    refine ⟨last, ?_, by omega, comes⟩
    rw [Option.mem_def] at ends ⊢
    rw [List.getLast?_cons, ends, Option.getD_some]

/-- From some time on, all attempts work, and before that a failure leaves time for another one. -/
structure Opens (clock : Clock ε α) (useful : ε → Bool) (deadline now opens : Nat) : Prop where
  works : ∀ time, opens ≤ time → ∃ value, (clock.attempt time).1 = .ok value
  fails : ∀ time error, now ≤ time → time < opens → (clock.attempt time).1 = .error error →
    useful error = true ∧ (clock.attempt time).2 < deadline

/-- What works in time is reached. -/
theorem Tried.reaches (tried : Tried clock useful deadline backoff now rest) {opens : Nat}
    (inTime : Opens clock useful deadline now opens) : ∃ value, rest.2 = .ok value := by
  obtain ⟨last, _, after, comes⟩ := tried.last
  have worked {error : ε} (failed : (clock.attempt last).1 = .error error) : last < opens := by
    by_contra opened
    obtain ⟨value, works⟩ := inTime.works last (Nat.not_lt.mp opened)
    rw [works] at failed
    cases failed
  -- The last attempt has not failed, as there would be another one behind it.
  split at comes
  · rename_i value same
    exact ⟨value, same⟩
  · obtain ⟨failed, useless⟩ := comes
    have use := (inTime.fails last _ after (worked failed) failed).1
    rw [useless] at use
    cases use
  · obtain ⟨failed, _, late⟩ := comes
    have early := (inTime.fails last _ after (worked failed) failed).2
    omega

/-- With nothing to wait for but the pauses, it is reached one pause later at most. -/
theorem Tried.soon (tried : Tried clock useful deadline backoff now rest) (prompt : clock.Prompt)
    {opens : Nat} (works : ∀ time, opens ≤ time → ∃ value, (clock.attempt time).1 = .ok value) :
    ∀ last ∈ rest.1.getLast?, last = now ∨ last < opens + longest := by
  induction tried with
  | worked worked => exact fun last ends => .inl (Option.some.inj ends).symm
  | hopeless failed useless => exact fun last ends => .inl (Option.some.inj ends).symm
  | late failed use late => exact fun last ends => .inl (Option.some.inj ends).symm
  | @again backoff now error rest failed use early later ih =>
    intro last ends
    -- The attempt has failed, so that it was too early.
    have before : now < opens := by
      by_contra opened
      obtain ⟨value, works⟩ := works now (Nat.not_lt.mp opened)
      rw [works] at failed
      cases failed
    obtain ⟨final, last_, _⟩ := later.last
    rw [Option.mem_def] at last_ ends
    rw [List.getLast?_cons, last_, Option.getD_some] at ends
    cases ends
    rcases ih last last_ with first | soon
    · -- If the next attempt is the last one, it is one pause behind a time that was too early.
      have bounded := backoff.bounded
      rw [prompt.pause, prompt.attempt] at first
      exact .inr (by omega)
    · exact .inr soon

end Transition
