import DenialMonitor.Monitor.Run

set_option autoImplicit false

/-!
# Monitors that follow one another

A monitor that nobody holds any more goes on until the requests in flight are answered. Until then
it may have a successor, which works on the same files. The two know nothing of each other, but
what one of them writes the other one reads, and both hear the signals of the operating system.

## Main definitions

* `Succession` — monitors with the same surroundings.
* `Succession.act` — one of them acts.
* `Succession.start` — another one is started.
* `Succession.signal` — all of them hear a signal.
* `Succession.settle` — all of them go on until they are settled.

## Main results

* `Succession.around_act` — the surroundings after an action are those that the monitor leaves
  that has acted.
* `Succession.getElem?_act_of_ne` — an action leaves the other monitors as they were, but for
  their surroundings.
-/

namespace DenialMonitor

/-- The monitor in other surroundings. -/
def Monitor.within (m : Monitor) (around : Surroundings) : Monitor :=
  { m with around }

/-- Monitors with the same surroundings, oldest first. -/
structure Succession where
  around : Surroundings
  members : List Monitor
  around_eq : ∀ m ∈ members, m.around = around

namespace Succession

/-- Monitors that are put into the same surroundings. -/
def ofMembers (around : Surroundings) (ms : List Monitor) : Succession :=
  ⟨around, ms.map (·.within around), by simp [Monitor.within]⟩

/-- Surroundings without any monitor. -/
def empty (around : Surroundings) : Succession :=
  ⟨around, [], by simp⟩

/-- The monitors in other surroundings. -/
def within (s : Succession) (around : Surroundings) : Succession :=
  ofMembers around s.members

/-- Changes monitor number `i`. What this does to the surroundings reaches all of them. -/
def update (s : Succession) (i : Nat) (f : Monitor → Monitor) : Succession :=
  match s.members[i]? with
  | none => s
  | some m => ofMembers (f m).around (s.members.set i (f m))

/-- Monitor number `i` acts. -/
def act (s : Succession) (i : Nat) (a : Action) : Succession :=
  s.update i (·.act a)

/-- Starts another monitor, where the daemon runs or not. -/
def start (s : Succession) (settings : Settings) (running : Bool) : Succession :=
  let m := Monitor.start settings s.around running
  ofMembers m.around (s.members ++ [m])

/-- The number of the monitor that was started last. -/
def newest (s : Succession) : Nat :=
  s.members.length - 1

/-- The monitor that was started last. -/
def newest? (s : Succession) : Option Monitor :=
  s.members[s.newest]?

/-- The operating system sends a signal about `path`. -/
def signal (s : Succession) (path : String) (x : Signal) : Succession :=
  (List.range s.members.length).foldl (fun s i => s.act i (.signal path x)) s

/-- All monitors go on alone until they are settled, the oldest one first. -/
def settle (s : Succession) : Succession :=
  (List.range s.members.length).foldl (fun s i => s.update i Monitor.settle) s

/-- The first monitor with an errand that waits for an answer of others, and the number of that
errand. -/
def waiting? (s : Succession) : Option (Nat × Nat) :=
  s.members.zipIdx.findSome? fun (m, i) => m.waiting?.map fun j => (i, j)

/-- When something will be possible without the outside again. -/
def nextDue? (s : Succession) : Option Nat :=
  (s.members.filterMap Monitor.nextDue?).min?

/-- The monitors at the moment `now`. -/
def passTo (s : Succession) (now : Nat) : Succession :=
  s.within { s.around with now }

theorem around_update {s : Succession} {i : Nat} {m : Monitor} (h : s.members[i]? = some m)
    (f : Monitor → Monitor) : (s.update i f).around = (f m).around := by
  simp [update, h, ofMembers]

/-- What was changed is found at its place. -/
theorem getElem?_update_self {s : Succession} {i : Nat} {m : Monitor}
    (h : s.members[i]? = some m) (f : Monitor → Monitor) :
    (s.update i f).members[i]? = some (f m) := by
  obtain ⟨hi, rfl⟩ := List.getElem?_eq_some_iff.mp h
  simp [update, hi, ofMembers, Monitor.within]

/-- The other monitors stay as they were, but for their surroundings. -/
theorem getElem?_update_of_ne {s : Succession} {i j : Nat} (h : i ≠ j) (f : Monitor → Monitor) :
    (s.update i f).members[j]? =
      s.members[j]?.map (·.within (s.update i f).around) := by
  cases hi : s.members[i]? with
  | some m => simp [update, hi, ofMembers, h]
  | none =>
    cases hj : s.members[j]? with
    | none => simp [update, hi, hj]
    | some m =>
      have hm := s.around_eq m (List.mem_of_getElem? hj)
      simp [update, hi, hj, Monitor.within, ← hm]

/-- The surroundings after an action are those that the monitor leaves that has acted. -/
theorem around_act {s : Succession} {i : Nat} {m : Monitor} (h : s.members[i]? = some m)
    (a : Action) : (s.act i a).around = (m.act a).around :=
  around_update h _

/-- An action leaves the other monitors as they were, but for their surroundings. -/
theorem getElem?_act_of_ne {s : Succession} {i j : Nat} (h : i ≠ j) (a : Action) :
    (s.act i a).members[j]? = s.members[j]?.map (·.within (s.act i a).around) :=
  getElem?_update_of_ne h _

end Succession

end DenialMonitor
