import McpCli.Bridge.DaemonClient
import McpCli.Transition.Retry

/-! How the bridge gets a stream to a daemon, which it spawns if there is none. Times are in ms. -/

namespace McpCli

open Transition

/-- How long connecting is tried after a spawn. -/
def connectBudget : Nat := 2000

/-- The longest pause between two attempts. -/
def maxBackoff : Nat := 320

/-- The first pause between two attempts. -/
def initialBackoff : Backoff maxBackoff where
  length := 25
  positive := by decide
  bounded := by decide

/-- Whether waiting for the daemon may help. -/
def ErrorKind.isConnectRetryable : ErrorKind → Bool
  | .notFound | .connectionRefused => true
  | _ => false

/-- Why there is no stream. -/
inductive ConnectFault where
  | connect (kind : ErrorKind)
  | spawn (error : String)
  | nonRetryable (kind : ErrorKind)
  /-- The daemon did not accept connections within the budget. -/
  | late (kind : ErrorKind)
  deriving DecidableEq, Repr

/-- Why connecting was given up. -/
def ConnectFault.ofGivenUp : GivenUp ErrorKind → ConnectFault
  | .hopeless kind => .nonRetryable kind
  | .late kind => .late kind

/-- Connect again and again after a spawn, with the times of the attempts. -/
def retryConnect {Stream : Type} (clock : Clock ErrorKind Stream) (budget now : Nat) :
    List Nat × Except ConnectFault Stream :=
  let (times, outcome) :=
    retry clock ErrorKind.isConnectRetryable (now + budget) initialBackoff now
  (times, outcome.mapError .ofGivenUp)

/--
Connect, and spawn a daemon if there seems to be none. A spawn ends at some time, and from then on
connecting may come to something else than before.
-/
def connectWithAutospawn {Stream : Type} (autospawn : Bool) (clock : Clock ErrorKind Stream)
    (spawn : Nat → Except String (Nat × Clock ErrorKind Stream)) (now : Nat) :
    List Nat × Except ConnectFault Stream :=
  match clock.attempt now with
  | (.ok stream, _) => ([now], .ok stream)
  | (.error kind, after) =>
    if autospawn && kind.isConnectRetryable then
      match spawn after with
      | .error e => ([now], .error (.spawn e))
      | .ok (spawned, clock) =>
        let (times, outcome) := retryConnect clock connectBudget spawned
        (now :: times, outcome)
    else ([now], .error (.connect kind))

end McpCli
