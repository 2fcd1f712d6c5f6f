import DenialMonitor.Denial.Record

set_option autoImplicit false

/-!
# Denials per agent

Deletes and renames are counted per agent. The agent with the most denials comes first, and
agents with equally many come in the order in which they were first seen.

While records are counted, the agents seen so far have an entry each, and an index tells the place
of each agent's entry. Entries are reached by their place. Counting would fail where there is no
entry at a place; the index never leads out of range, so it never does.

## Main definitions

* `AgentStats` — the counts of one agent.
* `Tally` — the entries of the agents seen so far, and where they stand.
* `Tally.ofRecords?` — counts a list of records.
* `AgentStats.ofRecords` — the counts of all agents in a list of records.
-/

namespace DenialMonitor

/-- How often operations of one agent were refused. -/
structure AgentStats where
  agentName : String
  deleteCount : Nat
  moveCount : Nat
  deriving DecidableEq, Repr

/-- How many denials the counts stand for. -/
def AgentStats.total (s : AgentStats) : Nat :=
  s.deleteCount + s.moveCount

/-- What an operation adds to the deletes and moves of its agent. Unknown operations do not
count. -/
def OperationKind.counts? : OperationKind → Option (Nat × Nat)
  | .delete => some (1, 0)
  | .rename => some (0, 1)
  | .unknown => none

/-- The entries of the agents seen so far, and the place of each agent's entry among them. -/
structure Tally where
  /-- In the order in which the agents were first seen. -/
  entries : List AgentStats
  places : List (String × Nat)
  deriving DecidableEq, Repr

namespace Tally

/-- Before the first record. -/
def empty : Tally :=
  ⟨[], []⟩

/-- The place of an agent's entry. An entry that is missing is created behind the others. -/
def seat (t : Tally) (agent : String) : Nat × Tally :=
  match t.places.lookup agent with
  | some i => (i, t)
  | none =>
    (t.entries.length,
      ⟨t.entries ++ [⟨agent, 0, 0⟩], (agent, t.entries.length) :: t.places⟩)

/-- Adds counts to the entry at place `i`, or `none` if no entry is there. -/
def add? (t : Tally) (i deletes moves : Nat) : Option Tally :=
  t.entries[i]?.map fun s =>
    let s' := { s with deleteCount := s.deleteCount + deletes, moveCount := s.moveCount + moves }
    { t with entries := t.entries.set i s' }

/-- Counts one record. -/
def count? (t : Tally) (r : DenialRecord) : Option Tally :=
  match r.op.counts? with
  | none => some t
  | some (deletes, moves) =>
    let (i, t) := t.seat r.ancestor
    t.add? i deletes moves

/-- Counts records one after the other. -/
def ofRecords? (rs : List DenialRecord) : Option Tally :=
  rs.foldlM count? empty

/-- The index leads to entries. -/
def InRange (t : Tally) : Prop :=
  ∀ p ∈ t.places, p.2 < t.entries.length

/-- The place of an agent's entry is in range, and the index goes on leading to entries. -/
theorem InRange.seat {t : Tally} (h : t.InRange) (agent : String) :
    (t.seat agent).1 < (t.seat agent).2.entries.length ∧ (t.seat agent).2.InRange := by
  unfold Tally.seat
  split
  · next i hi =>
    obtain ⟨before, after, hplaces, -⟩ := List.lookup_eq_some_iff.mp hi
    exact ⟨h (agent, i) (by simp [hplaces]), h⟩
  · refine ⟨by simp, fun p hp => ?_⟩
    rw [List.length_append, List.length_singleton]
    rcases List.mem_cons.mp hp with rfl | hp
    · exact Nat.lt_succ_self _
    · exact Nat.lt_succ_of_lt (h p hp)

/-- A record is counted, and the index goes on leading to entries. -/
theorem InRange.exists_count? {t : Tally} (h : t.InRange) (r : DenialRecord) :
    ∃ t', t.count? r = some t' ∧ t'.InRange := by
  unfold count?
  cases r.op.counts? with
  | none => exact ⟨t, rfl, h⟩
  | some counts =>
    obtain ⟨hlt, hrange⟩ := h.seat r.ancestor
    refine ⟨_, by simp [add?, List.getElem?_eq_getElem hlt]; rfl, fun p hp => ?_⟩
    simpa using hrange p hp

/-- Records are always counted. -/
theorem isSome_ofRecords? (rs : List DenialRecord) : (ofRecords? rs).isSome := by
  have hrun (t : Tally) (h : t.InRange) : (rs.foldlM count? t).isSome := by
    induction rs generalizing t with
    | nil => rfl
    | cons r rs ih =>
      obtain ⟨t', ht', hrange⟩ := h.exists_count? r
      rw [List.foldlM_cons, ht']
      exact ih t' hrange
  exact hrun empty fun p hp => by simp [empty] at hp

end Tally

namespace AgentStats

/-- The counts of all agents, in the order in which they were first seen. -/
def tally (rs : List DenialRecord) : List AgentStats :=
  ((Tally.ofRecords? rs).get (Tally.isSome_ofRecords? rs)).entries

/-- The counts of all agents, those with more denials first and otherwise in the order in which
they were first seen. -/
def ofRecords (rs : List DenialRecord) : List AgentStats :=
  (tally rs).mergeSort fun a b => b.total ≤ a.total

@[simp]
theorem ofRecords_nil : ofRecords [] = [] := by
  have htally : tally [] = [] := rfl
  rw [ofRecords, htally, List.mergeSort_nil]

end AgentStats

end DenialMonitor
