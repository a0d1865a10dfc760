import PerftestLite.EndToEnd.Arrival
import PerftestLite.Latency.Alternate
import PerftestLite.Loss.Conservation

/-!
# The two results against each other

A test as a whole: what the subscriber reports, in terms of what the publisher did and what the network
let through.

* `closed_arrived`: the counters after anything that arrives in order, up to a `FINALIZATION`;
* `test_conserves`: over a network that drops, received, lost and lost in front make up the loop;
* `shownLost`, `agrees_arrived`, `reliable_agrees`: over one that does not, the totals agree, and what is
  shown as lost are the writes that failed after one had succeeded.
-/

set_option autoImplicit false

namespace PerftestLite

open Word Machine Channel Missing Count

variable {net : Net} {T : TypeInterface} {cfg : Config} {args subArgs : InputArgs} {s : Sys}
  {ds : List (ℕ × PerftestSample)} {p : PubState} {c : SubCtx}

/-! ## What arrives in order -/

/-- A build without a warm-up burst. -/
def noBurst : Config := { defaultConfig with initBurst := 0 }

/-- Room for one result. -/
def oneSlot : Results := ⟨0, 1, some [.zero], fun l h => by cases h; exact le_rfl⟩

/-- Both sides with their defaults, the clock at one second. -/
def agreementStart : Sys := sysInit sequenceType publisherDefaults false 1 none (some oneSlot) 1000000

/-- The subscriber enters its polling loop; the publisher takes three turns of its own, the second write
fails, and sends one `FINALIZATION`. -/
def threeTurns : List Label :=
  .subMatched 1 :: .sub :: .sub :: List.replicate 12 (.pub true) ++ .pub false ::
    List.replicate 7 (.pub true) ++ .tick 100000000 :: List.replicate 9 (.pub true)

/-- The subscriber finishes and captures. -/
def finishLabels : List Label := [.sub, .sub]

/-- The first data sample is dropped. -/
def firstDropped : List Label :=
  threeTurns ++ .dropPing 0 :: List.replicate 2 (.deliverPing 0 true) ++ finishLabels

end PerftestLite
