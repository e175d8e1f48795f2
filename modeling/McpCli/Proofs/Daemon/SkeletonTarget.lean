import McpCli.Proofs.Daemon.SkeletonRegions

/-! Where the lines of a file are in its skeleton, and when those of the target are there at all. -/

namespace McpCli

variable {params : FsReadSkeletonParams}

/-- The line of the file stands at a place of a skeleton. -/
def StandsAt (shown : List SkeletonLine) (number place : Nat) : Prop :=
  ∃ text, shown[place]? = some (.original number text)

/-- A place holds one line only. -/
theorem StandsAt.unique {shown : List SkeletonLine} {number other place : Nat}
    (one : StandsAt shown number place) (another : StandsAt shown other place) :
    number = other := by
  obtain ⟨text, one⟩ := one
  obtain ⟨text', another⟩ := another
  rw [one] at another
  cases another
  rfl

/-- The line is in the skeleton as it is in the file. -/
def Shown (lines : List (List Char)) (shown : List SkeletonLine) (number : Nat) : Prop :=
  ∃ text, lines[number - 1]? = some text ∧ .original number text ∈ shown

end McpCli
