import DenialMonitor.Json.Tree

set_option autoImplicit false

/-!
# The policy document

The guard daemon reads what it protects from a policy document. The monitor edits the temporary
overrides in it and leaves everything else as it found it, so members that it does not know are
kept with their values and their order.

## Main definitions

* `SecurityPolicy` — a policy document.
* `SecurityPolicy.isProtected` — whether the daemon guards a path.
* `SecurityPolicy.same` — equality of documents, disregarding the order of unknown members.
-/

namespace DenialMonitor

/-- A policy document. -/
structure SecurityPolicy where
  protectedZones : List String
  /-- Paths that are open for a while although they lie in a protected zone. -/
  temporaryOverrides : List String
  /-- The tools that may do everything, if the document names its own. -/
  trustedTools : Option (List String)
  /-- What processes of agents are called, if the document names its own. -/
  aiAgentPatterns : Option (List String)
  /-- The members that are none of the above, in the order of the document. -/
  extra : Members String Number
  deriving Repr

namespace SecurityPolicy

/-- The policy that stands for a missing or malformed document. -/
def empty : SecurityPolicy :=
  ⟨[], [], none, none, []⟩

/-- The tools that are trusted when the document names none. -/
def defaultTrustedTools : List String :=
  ["git", "cargo", "npm", "pnpm", "yarn", "make", "nix"]

/-- The names of agents when the document has none. -/
def defaultAiAgentPatterns : List String :=
  ["codex", "claude", "cursor", "gemini", "aider", "copilot"]

/-- The tools that are trusted. -/
def effectiveTrustedTools (p : SecurityPolicy) : List String :=
  p.trustedTools.getD defaultTrustedTools

/-- The names of agents. -/
def effectiveAiAgentPatterns (p : SecurityPolicy) : List String :=
  p.aiAgentPatterns.getD defaultAiAgentPatterns

/-- Whether one of `heads` is a beginning of `path`. -/
def startsWithAny (heads : List String) (path : String) : Bool :=
  heads.any fun h => h.toList.isPrefixOf path.toList

/-- Whether the daemon guards `path`: it begins with a protected zone and with no temporary
override. -/
def isProtected (p : SecurityPolicy) (path : String) : Bool :=
  startsWithAny p.protectedZones path && !startsWithAny p.temporaryOverrides path

/-- Whether two documents say the same. Unknown members are compared in any order. -/
def same (p q : SecurityPolicy) : Bool :=
  p.protectedZones == q.protectedZones && p.temporaryOverrides == q.temporaryOverrides &&
    p.trustedTools == q.trustedTools && p.aiAgentPatterns == q.aiAgentPatterns &&
    Json.same (.object p.extra) (.object q.extra)

end SecurityPolicy

end DenialMonitor
