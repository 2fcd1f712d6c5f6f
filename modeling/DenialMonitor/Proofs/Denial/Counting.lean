import DenialMonitor.Denial.Stats
import Mathlib.Algebra.Ring.Nat
import Mathlib.Data.List.Basic
import Mathlib.Data.List.Induction
import Mathlib.Data.List.Nodup

set_option autoImplicit false

/-!
# The counts per agent

Whatever the records, every agent with a counted record has one entry, which holds how many deletes
and renames of that agent there are, and the entries are ordered by their totals and then by the
first counted record of the agent.

Counting is described by what it has come to after each record: the entries are those of the agents
seen so far, in the order in which they were first seen, and the index gives the place of each agent
in this order. The order by totals then follows from sorting, which is stable.

## Main definitions

* `DenialRecord.isCounted` — a delete or a rename.
* `AgentStats.agents` — the agents with a counted record, in the order in which they are first seen.
* `AgentStats.entry` — the counts of one agent.
* `AgentStats.firstCounted` — the position of the first counted record of an agent.

## Main results

* `AgentStats.pairwise_agents` — agents are ordered by their first counted record.
* `Tally.Reflects.count` — what the entries and the index come to with one more record.
* `AgentStats.sum_totals` — the totals add up to the number of counted records.
* `AgentStats.ofRecords_is_exact` — the counts of all agents are exact.
-/

namespace DenialMonitor

/-- A record of an operation that counts. -/
def DenialRecord.isCounted (r : DenialRecord) : Bool :=
  r.op = .delete || r.op = .rename

namespace AgentStats

variable {a : String} {r : DenialRecord} {rs : List DenialRecord}

/-! ## Agents -/

/-- Takes note of the agent of a counted record, unless it was seen before. -/
def note (seen : List String) (r : DenialRecord) : List String :=
  if r.isCounted ∧ r.ancestor ∉ seen then seen ++ [r.ancestor] else seen

/-- The agents with a counted record, in the order in which they are first seen. -/
def agents (rs : List DenialRecord) : List String :=
  rs.foldl note []

@[simp]
theorem agents_nil : agents [] = [] :=
  rfl

theorem agents_concat (rs : List DenialRecord) (r : DenialRecord) :
    agents (rs ++ [r]) = note (agents rs) r := by
  simp [agents]

/-- The agents are those of the counted records. -/
theorem mem_agents : a ∈ agents rs ↔ ∃ r ∈ rs, r.ancestor = a ∧ r.isCounted := by
  induction rs using List.reverseRecOn with
  | nil => simp
  | append_singleton rs r ih =>
    rw [agents_concat, note]
    split
    · next hnew => grind
    · next hnew => grind

theorem nodup_agents (rs : List DenialRecord) : (agents rs).Nodup := by
  induction rs using List.reverseRecOn with
  | nil => simp
  | append_singleton rs r ih =>
    rw [agents_concat, note]
    split
    · next hnew => exact List.nodup_append_comm.mp (List.nodup_cons.mpr ⟨hnew.2, ih⟩)
    · exact ih

/-- The position of the first counted record of an agent. -/
def firstCounted (a : String) (rs : List DenialRecord) : Nat :=
  rs.findIdx fun r => r.ancestor = a && r.isCounted

theorem firstCounted_lt (h : a ∈ agents rs) : firstCounted a rs < rs.length := by
  obtain ⟨r, hr, ha, hcounted⟩ := mem_agents.mp h
  exact List.findIdx_lt_length.mpr ⟨r, hr, by simp [ha, hcounted]⟩

/-- A further record is not the first one of an agent that was seen. -/
theorem firstCounted_concat (h : a ∈ agents rs) (r : DenialRecord) :
    firstCounted a (rs ++ [r]) = firstCounted a rs := by
  have hlt := firstCounted_lt h
  unfold firstCounted at hlt ⊢
  rw [List.findIdx_append, if_pos hlt]

/-- Agents are ordered by their first counted record. -/
theorem pairwise_agents (rs : List DenialRecord) :
    (agents rs).Pairwise fun a b => firstCounted a rs < firstCounted b rs := by
  induction rs using List.reverseRecOn with
  | nil => simp
  | append_singleton rs r ih =>
    have hseen : (agents rs).Pairwise fun a b =>
        firstCounted a (rs ++ [r]) < firstCounted b (rs ++ [r]) :=
      ih.imp_of_mem fun ha hb hlt => by rwa [firstCounted_concat ha, firstCounted_concat hb]
    rw [agents_concat, note]
    split
    · next hnew =>
      refine List.pairwise_append.mpr ⟨hseen, List.pairwise_singleton _ _, fun a ha b hb => ?_⟩
      obtain rfl := List.mem_singleton.mp hb
      have hnone : ¬ rs.findIdx (fun r' => r'.ancestor = r.ancestor && r'.isCounted) < rs.length := by
        intro hlt
        obtain ⟨r', hr', h⟩ := List.findIdx_lt_length.mp hlt
        exact hnew.2 (mem_agents.mpr ⟨r', hr', by simpa using h⟩)
      have hlast : rs.length ≤ firstCounted r.ancestor (rs ++ [r]) := by
        unfold firstCounted
        rw [List.findIdx_append, if_neg hnone]
        exact Nat.le_add_left ..
      rw [firstCounted_concat ha]
      exact Nat.lt_of_lt_of_le (firstCounted_lt ha) hlast
    · exact hseen

/-! ## Counts -/

/-- The counts of one agent. -/
def entry (rs : List DenialRecord) (a : String) : AgentStats :=
  ⟨a, rs.countP fun r => r.ancestor = a ∧ r.op = .delete,
    rs.countP fun r => r.ancestor = a ∧ r.op = .rename⟩

/-- A record that does not count for an agent leaves its counts alone. -/
theorem entry_concat_of_ne (h : ¬ (r.ancestor = a ∧ r.isCounted)) :
    entry (rs ++ [r]) a = entry rs a := by
  simp only [DenialRecord.isCounted, Bool.or_eq_true, decide_eq_true_eq] at h
  simp only [entry, List.countP_append, List.countP_singleton, mk.injEq, true_and]
  grind

/-- An agent without a counted record has no counts. -/
theorem entry_of_not_mem (h : a ∉ agents rs) : entry rs a = ⟨a, 0, 0⟩ := by
  have hnone : ∀ r ∈ rs, ¬ (r.ancestor = a ∧ r.isCounted) := fun r hr hcounted =>
    h (mem_agents.mpr ⟨r, hr, hcounted⟩)
  simp only [DenialRecord.isCounted, Bool.or_eq_true, decide_eq_true_eq] at hnone
  simp only [entry, mk.injEq, true_and, List.countP_eq_zero]
  grind

/-- A counted record of one agent or of some others is a delete or a rename of the one or a record of
the others. -/
theorem countP_cons_agents {as : List String} (ha : a ∉ as) (rs : List DenialRecord) :
    (rs.countP fun r => r.isCounted && (a :: as).contains r.ancestor) =
      (entry rs a).total + rs.countP fun r => r.isCounted && as.contains r.ancestor := by
  induction rs with
  | nil => rfl
  | cons r rs ih =>
    simp only [entry, total, List.countP_cons] at ih ⊢
    rw [ih]
    by_cases hr : r.ancestor = a
    · cases hop : r.op <;> simp [DenialRecord.isCounted, hop, hr, ha] <;> omega
    · cases hop : r.op <;> simp [DenialRecord.isCounted, hop, hr] <;> omega

/-- The totals of several agents add up to the number of their counted records. -/
theorem sum_totals {as : List String} (has : as.Nodup) (rs : List DenialRecord) :
    ((as.map (entry rs)).map total).sum =
      rs.countP fun r => r.isCounted && as.contains r.ancestor := by
  induction as with
  | nil => simp
  | cons a as ih =>
    obtain ⟨hnew, has⟩ := List.nodup_cons.mp has
    rw [List.map_cons, List.map_cons, List.sum_cons, ih has, countP_cons_agents hnew]

end AgentStats

/-! ## Counting -/

namespace Tally

variable {t : Tally} {seen : List String} {f : String → AgentStats} {a : String}

/-- The agents seen so far have the entries that `f` gives, in their order, and the index tells their
places. -/
structure Holds (t : Tally) (seen : List String) (f : String → AgentStats) : Prop where
  entries_eq : t.entries = seen.map f
  lookup_iff : ∀ a i, t.places.lookup a = some i ↔ seen[i]? = some a

theorem holds_empty (f : String → AgentStats) : empty.Holds [] f :=
  ⟨rfl, by simp [empty]⟩

/-- The place of an agent is the one in the order, at the end for an agent that was not seen. -/
theorem Holds.seat (h : t.Holds seen f) (hf : a ∉ seen → f a = ⟨a, 0, 0⟩) :
    let seen' := if a ∉ seen then seen ++ [a] else seen
    (t.seat a).2.Holds seen' f ∧ seen'[(t.seat a).1]? = some a := by
  intro seen'
  cases hlookup : t.places.lookup a with
  | some i =>
    have hi := (h.lookup_iff a i).mp hlookup
    have hseen : seen' = seen := if_neg (not_not_intro (List.mem_of_getElem? hi))
    simp only [Tally.seat, hlookup, hseen]
    exact ⟨h, hi⟩
  | none =>
    have hnew : a ∉ seen := by
      intro ha
      obtain ⟨i, hi⟩ := List.mem_iff_getElem?.mp ha
      simp [(h.lookup_iff a i).mpr hi] at hlookup
    have hseen : seen' = seen ++ [a] := if_pos hnew
    have hlength : t.entries.length = seen.length := by rw [h.entries_eq, List.length_map]
    simp only [Tally.seat, hlookup, hseen, hlength]
    refine ⟨⟨by rw [h.entries_eq, List.map_append, List.map_singleton, hf hnew], fun b i => ?_⟩,
      by simp⟩
    rw [List.lookup_cons]
    by_cases hb : b = a
    · subst hb
      simp only [beq_self_eq_true, Option.some.injEq, List.getElem?_append]
      grind
    · have hbeq : (b == a) = false := by simpa using hb
      simp only [hbeq, h.lookup_iff, List.getElem?_append]
      grind

/-- Counts are added to the entry of the agent at the place. -/
theorem Holds.add? (h : t.Holds seen f) (hnodup : seen.Nodup) {i : Nat} (hi : seen[i]? = some a)
    {f' : String → AgentStats} (deletes moves : Nat) (hother : ∀ b ≠ a, f' b = f b)
    (hself : f' a = { f a with
      deleteCount := (f a).deleteCount + deletes, moveCount := (f a).moveCount + moves }) :
    ∃ t', t.add? i deletes moves = some t' ∧ t'.Holds seen f' := by
  have hentry : t.entries[i]? = some (f a) := by rw [h.entries_eq, List.getElem?_map, hi]; rfl
  refine ⟨{ t with entries := t.entries.set i (f' a) }, by simp [Tally.add?, hentry, hself],
    ?_, h.lookup_iff⟩
  refine List.ext_getElem? fun j => ?_
  rw [h.entries_eq, List.getElem?_set, List.getElem?_map, List.getElem?_map]
  split
  · next hij => subst hij; grind
  · next hij =>
    cases hj : seen[j]? with
    | none => rfl
    | some b =>
      have hb : b ≠ a := by
        rintro rfl
        exact hij ((List.getElem?_inj (List.getElem?_eq_some_iff.mp hi).1 hnodup).mp
          (hi.trans hj.symm))
      simp [hother b hb]

/-- The agents with a counted record have their counts, in the order in which they are first seen, and
the index tells their places. -/
abbrev Reflects (t : Tally) (rs : List DenialRecord) : Prop :=
  t.Holds (AgentStats.agents rs) (AgentStats.entry rs)

/-- One more record is counted. -/
theorem Reflects.count {rs : List DenialRecord} (h : t.Reflects rs) (r : DenialRecord) :
    ∃ t', t.count? r = some t' ∧ t'.Reflects (rs ++ [r]) := by
  have hother : ∀ b ≠ r.ancestor, AgentStats.entry (rs ++ [r]) b = AgentStats.entry rs b :=
    fun b hb => AgentStats.entry_concat_of_ne fun hr => hb hr.1.symm
  have hnodup := AgentStats.nodup_agents (rs ++ [r])
  have hadd (deletes moves : Nat) (hcounts : r.op.counts? = some (deletes, moves))
      (hcounted : r.isCounted)
      (hself : AgentStats.entry (rs ++ [r]) r.ancestor = ⟨r.ancestor,
        (AgentStats.entry rs r.ancestor).deleteCount + deletes,
        (AgentStats.entry rs r.ancestor).moveCount + moves⟩) :
      ∃ t', t.count? r = some t' ∧ t'.Reflects (rs ++ [r]) := by
    obtain ⟨hseat, hi⟩ := Holds.seat (a := r.ancestor) h AgentStats.entry_of_not_mem
    have hseen : AgentStats.agents (rs ++ [r]) =
        if r.ancestor ∉ AgentStats.agents rs then AgentStats.agents rs ++ [r.ancestor]
        else AgentStats.agents rs := by
      simp [AgentStats.agents_concat, AgentStats.note, hcounted]
    rw [← hseen] at hseat hi
    simp only [count?, hcounts]
    exact hseat.add? hnodup hi deletes moves hother hself
  cases hop : r.op with
  | delete =>
    refine hadd 1 0 (by rw [hop]; rfl) (by simp [DenialRecord.isCounted, hop]) ?_
    simp [AgentStats.entry, hop]
  | rename =>
    refine hadd 0 1 (by rw [hop]; rfl) (by simp [DenialRecord.isCounted, hop]) ?_
    simp [AgentStats.entry, hop]
  | unknown =>
    have hcounted : r.isCounted = false := by simp [DenialRecord.isCounted, hop]
    refine ⟨t, by simp [count?, hop, OperationKind.counts?], ?_, ?_⟩
    · rw [h.entries_eq, AgentStats.agents_concat, AgentStats.note, if_neg (by simp [hcounted])]
      refine List.map_congr_left fun b _ => (AgentStats.entry_concat_of_ne ?_).symm
      simp [hcounted]
    · rw [AgentStats.agents_concat, AgentStats.note, if_neg (by simp [hcounted])]
      exact h.lookup_iff

/-- Records are counted one after the other, and none of their agents is looked for where no entry
is. -/
theorem exists_ofRecords? (rs : List DenialRecord) :
    ∃ t, ofRecords? rs = some t ∧ t.Reflects rs := by
  induction rs using List.reverseRecOn with
  | nil => exact ⟨empty, rfl, holds_empty _⟩
  | append_singleton rs r ih =>
    obtain ⟨t, ht, h⟩ := ih
    obtain ⟨t', ht', h'⟩ := h.count r
    refine ⟨t', ?_, h'⟩
    rw [ofRecords?] at ht ⊢
    rw [List.foldlM_append, ht]
    simpa using ht'

end Tally

/-! ## The order by totals -/

namespace AgentStats

/-- The counts in the order in which the agents are first seen. -/
theorem tally_eq (rs : List DenialRecord) : tally rs = (agents rs).map (entry rs) := by
  obtain ⟨t, ht, h⟩ := Tally.exists_ofRecords? rs
  have hget : (Tally.ofRecords? rs).get (Tally.isSome_ofRecords? rs) = t := by simp [ht]
  rw [tally, hget, h.entries_eq]

theorem perm_ofRecords (rs : List DenialRecord) :
    (ofRecords rs).Perm ((agents rs).map (entry rs)) := by
  rw [← tally_eq]
  exact List.mergeSort_perm _ _

/-- Agents with equally many denials come in the order in which they are first seen: sorting is
stable. -/
theorem filter_ofRecords (n : Nat) (rs : List DenialRecord) :
    (ofRecords rs).filter (·.total = n) = (tally rs).filter (·.total = n) := by
  have htied : ((tally rs).filter (·.total = n)).Pairwise fun a b => decide (b.total ≤ a.total) := by
    refine List.pairwise_iff_forall_sublist.mpr fun {a b} hab => ?_
    have ha := List.mem_filter.mp (hab.subset (by simp : a ∈ [a, b]))
    have hb := List.mem_filter.mp (hab.subset (by simp : b ∈ [a, b]))
    simp only [decide_eq_true_eq] at ha hb ⊢
    omega
  have hsub : ((tally rs).filter (·.total = n)).Sublist (ofRecords rs) :=
    List.sublist_mergeSort (by simp only [decide_eq_true_eq]; omega)
      (by simp only [Bool.or_eq_true, decide_eq_true_eq]; omega) htied List.filter_sublist
  have hsub' := hsub.filter (·.total = n)
  rw [List.filter_filter] at hsub'
  simp only [Bool.and_self] at hsub'
  exact (hsub'.eq_of_length ((List.mergeSort_perm _ _).symm.filter _).length_eq).symm

/-- Agents with more denials come first, and agents with equally many in the order of their first
counted records. -/
theorem pairwise_ofRecords (rs : List DenialRecord) :
    (ofRecords rs).Pairwise fun a b => b.total < a.total ∨
      a.total = b.total ∧ firstCounted a.agentName rs < firstCounted b.agentName rs := by
  have hsorted : (ofRecords rs).Pairwise fun a b => decide (b.total ≤ a.total) :=
    List.pairwise_mergeSort (by simp only [decide_eq_true_eq]; omega)
      (by simp only [Bool.or_eq_true, decide_eq_true_eq]; omega) _
  have hseen : (tally rs).Pairwise fun a b =>
      firstCounted a.agentName rs < firstCounted b.agentName rs := by
    rw [tally_eq]
    exact List.pairwise_map.mpr (pairwise_agents rs)
  refine List.pairwise_iff_forall_sublist.mpr fun {a b} hab => ?_
  have hle : b.total ≤ a.total := by
    simpa using List.pairwise_iff_forall_sublist.mp hsorted hab
  rcases Nat.lt_or_eq_of_le hle with hlt | heq
  · exact .inl hlt
  · have htied := hab.filter (·.total = a.total)
    rw [filter_ofRecords] at htied
    simp only [heq, decide_true, List.filter_cons_of_pos, List.filter_nil] at htied
    exact .inr ⟨heq.symm, List.pairwise_iff_forall_sublist.mp hseen
      (htied.trans List.filter_sublist)⟩

/-- **The counts per agent are exact.** Whatever the records, counting them never looks for an entry
where there is none, and finds at the place of an agent the entry of that agent. There is exactly one
entry for each agent of which a delete or a rename is among the records, and none for any other. It
holds the numbers of its deletes and renames, so the totals add up to the number of records whose
operation is known. Entries with a higher total come first, and those with the same total in the order
of the agents' first counted records.

**Proof sketch.** After each record the entries are those of the agents seen so far, in the order in
which they were first seen, with what has been counted for them; the index tells the places in this
order. Sorting keeps the entries, and the order among those with the same total. -/
theorem ofRecords_is_exact (rs : List DenialRecord) :
    (∃ t, Tally.ofRecords? rs = some t ∧ t.entries = tally rs ∧
      ∀ a i, t.places.lookup a = some i → ∃ s, t.entries[i]? = some s ∧ s.agentName = a) ∧
    ((ofRecords rs).map agentName).Nodup ∧
    (∀ a, a ∈ (ofRecords rs).map agentName ↔
      ∃ r ∈ rs, r.ancestor = a ∧ (r.op = .delete ∨ r.op = .rename)) ∧
    (∀ s ∈ ofRecords rs,
      s.deleteCount = (rs.countP fun r => r.ancestor = s.agentName ∧ r.op = .delete) ∧
      s.moveCount = rs.countP fun r => r.ancestor = s.agentName ∧ r.op = .rename) ∧
    ((ofRecords rs).map total).sum = (rs.countP fun r => r.op ≠ .unknown) ∧
    (ofRecords rs).Pairwise fun a b => b.total < a.total ∨
      a.total = b.total ∧ firstCounted a.agentName rs < firstCounted b.agentName rs := by
  have hnames : ((ofRecords rs).map agentName).Perm (agents rs) := by
    have h := (perm_ofRecords rs).map agentName
    rwa [List.map_map, show agentName ∘ entry rs = id from rfl, List.map_id] at h
  refine ⟨?_, hnames.nodup_iff.mpr (nodup_agents rs), fun a => ?_, fun s hs => ?_, ?_,
    pairwise_ofRecords rs⟩
  · obtain ⟨t, ht, h⟩ := Tally.exists_ofRecords? rs
    refine ⟨t, ht, by rw [tally_eq, h.entries_eq], fun a i hi => ⟨entry rs a, ?_, rfl⟩⟩
    rw [h.entries_eq, List.getElem?_map, (h.lookup_iff a i).mp hi]
    rfl
  · rw [hnames.mem_iff, mem_agents]
    simp [DenialRecord.isCounted]
  · obtain ⟨a, -, rfl⟩ := List.mem_map.mp ((perm_ofRecords rs).subset hs)
    exact ⟨rfl, rfl⟩
  · rw [((perm_ofRecords rs).map total).sum_nat, sum_totals (nodup_agents rs)]
    refine List.countP_congr fun r hr => ?_
    have hagent : r.isCounted → r.ancestor ∈ agents rs := fun h => mem_agents.mpr ⟨r, hr, rfl, h⟩
    cases hop : r.op <;> simp_all [DenialRecord.isCounted]

end AgentStats

end DenialMonitor
