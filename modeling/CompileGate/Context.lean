/-
CompileGate/Context.lean

What one request may do: its limits, its pinned package versions, the hosts it
may fetch from, and the clock reading from which on nothing more may start.
-/
import CompileGate.Config

namespace CompileGate

/-- The policy of one request. -/
structure Context (τ : Type) where
  maxSources : Int
  maxTotalBytes : Int
  allowedHosts : List Text
  packageCdn : Text
  packageVersions : Table Text
  /-- The clock reading from which on no new work may start; none for no deadline. -/
  deadline : Option τ
  /-- The time that the request was given, for messages. -/
  timeout : Option τ

namespace Context

variable {τ : Type} [Seconds τ]

/-- The policy of a request that starts at `now`.  Without a positive time limit there is no
deadline. -/
def ofConfig (config : Config τ) (versions : Table Text) (now : τ) : Context τ :=
  let timeout := if 0 < config.requestTimeout then some config.requestTimeout else none
  { maxSources := config.maxSources
    maxTotalBytes := config.maxTotalBytes
    allowedHosts := config.allowedHosts
    packageCdn := config.packageCdn
    packageVersions := versions
    deadline := timeout.map fun t => now + t
    timeout := timeout }

/-- The time left at a clock reading. -/
def secondsLeft (ctx : Context τ) (now : τ) : Option τ := ctx.deadline.map fun d => d - now

/-- Whether the deadline has come at a clock reading. -/
def isOver (ctx : Context τ) (now : τ) : Bool := (ctx.secondsLeft now).any Seconds.isOver

/-- The time limit that a message about the deadline names. -/
def namedTimeout (ctx : Context τ) : τ := ctx.timeout.getD 0

end Context

end CompileGate
