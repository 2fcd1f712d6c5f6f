import DenialMonitor.Proofs.Denial.RecordLines
import DenialMonitor.Proofs.Denial.Reloads
import DenialMonitor.Proofs.View.News
import Mathlib.Data.List.Basic

set_option autoImplicit false

/-!
# Arrivals in a log that grows

Where bytes are only ever appended to the denial log, counting records is as good as telling them
apart. Between two reloads that can read the file, a line that held a record keeps holding one, so
there are more records if and only if a line has come to hold one. The last line that holds one is
such a line then, and its record is announced. A later announcement is about a later line, so no
line is announced twice.

## Main definitions

* `DenialLog.arrivalAfter` — what a reload announces after a list of others.
* `DenialLog.AppendOnly` — a history of a log that grows.
* `DenialLog.Announces` — a reload announces the record on a line.
* `Monitor.denialReads` — the contents with which a run of the monitor loads the denial log.

## Main results

* `DenialLog.isSome_arrivalAfter_iff`, `DenialLog.exists_newest_of_arrivalAfter` — when a record is
  announced, and which one.
* `Monitor.alerts_eq` — the alerts of a run are the arrivals of what it has loaded.
* `DenialLog.each_new_line_is_announced_once` — arrivals in a log that grows.
-/

namespace DenialMonitor

namespace DenialLog

/-- What a reload announces that finds the given content after the reloads of `before`. -/
def arrivalAfter (before : List (Option (List UInt8))) (content : Option (List UInt8)) :
    Option DenialRecord :=
  ((empty.reloadAll before).reload content).1

/-- What all of a list of reloads announce, in their order. -/
def arrivals (contents : List (Option (List UInt8))) : List DenialRecord :=
  (List.range contents.length).filterMap fun k => arrivalAfter (contents.take k) contents[k]?.join

/-- Bytes are only appended to the file between the reloads that can read it, they spoil no record,
and the window covers all lines that hold something. -/
structure AppendOnly (contents : List (Option (List UInt8))) : Prop where
  continues : (contents.filterMap id).Pairwise Continues
  fits : ∀ content ∈ contents.filterMap id, Fits content

/-- The reload that finds the given content after the reloads of `before` announces the record on
line number `i`, which is the last one that holds one. -/
def Announces (before : List (Option (List UInt8))) (content : Option (List UInt8)) (i : Nat) : Prop :=
  ∃ now r, content = some now ∧ IsNewest now i r ∧ arrivalAfter before content = some r

variable {before after contents between : List (Option (List UInt8))}
  {content content' : Option (List UInt8)} {now last : List UInt8} {r : DenialRecord} {i i' : Nat}

/-! ## One reload -/

theorem exists_of_arrivalAfter (h : arrivalAfter before content = some r) :
    ∃ now last, content = some now ∧ lastRead? before = some last ∧
      (window last).length < (window now).length ∧ (window now).head? = some r :=
  reload_eq_some_iff.mp h

/-- A reload of a file that only grows announces a record if and only if a line has come to hold one
since the last reload that could read the file. -/
theorem isSome_arrivalAfter_iff (hlast : lastRead? before = some last) (h : Continues last now)
    (hfits : Fits last) (hfits' : Fits now) :
    (arrivalAfter before (some now)).isSome ↔
      ∃ i, (recordAt? now i).isSome ∧ recordAt? last i = none := by
  rw [← h.length_window_lt_iff hfits hfits', Option.isSome_iff_exists]
  constructor
  · rintro ⟨r, harrival⟩
    obtain ⟨_, _, ⟨⟩, hlast', hgrown, -⟩ := exists_of_arrivalAfter harrival
    obtain rfl := Option.some.inj (hlast.symm.trans hlast')
    exact hgrown
  · intro hgrown
    have hne : window now ≠ [] := List.ne_nil_of_length_pos (Nat.zero_lt_of_lt hgrown)
    obtain ⟨r, rest, hwindow⟩ := List.exists_cons_of_ne_nil hne
    exact ⟨r, reload_eq_some_iff.mpr ⟨now, last, rfl, hlast, hgrown, by rw [hwindow]; rfl⟩⟩

/-- The record announced is the one on the last line that holds one, which is new. -/
theorem exists_newest_of_arrivalAfter (harrival : arrivalAfter before (some now) = some r)
    (hlast : lastRead? before = some last) (h : Continues last now) (hfits : Fits last)
    (hfits' : Fits now) : ∃ i, IsNewest now i r ∧ recordAt? last i = none := by
  obtain ⟨_, _, ⟨⟩, -, -, hhead⟩ := exists_of_arrivalAfter harrival
  obtain ⟨i, hnewest⟩ := (head?_window_eq_some_iff hfits').mp hhead
  have hnew := (isSome_arrivalAfter_iff hlast h hfits hfits').mp (by rw [harrival]; rfl)
  exact ⟨i, hnewest, h.newest_is_new hnewest hnew⟩

theorem IsNewest.unique {r' : DenialRecord} (h : IsNewest now i r) (h' : IsNewest now i' r') :
    i = i' := by
  rcases Nat.lt_trichotomy i i' with hlt | heq | hgt
  · exact absurd h'.1 (by simp [h.2 i' hlt])
  · exact heq
  · exact absurd h.1 (by simp [h'.2 i hgt])

/-! ## Histories -/

theorem mem_of_lastRead? (h : lastRead? before = some last) : last ∈ before.filterMap id :=
  List.mem_of_getLast? h

/-- What was read last is what was read at a given reload, or later. -/
theorem lastRead?_append_cons (before between : List (Option (List UInt8))) (now : List UInt8) :
    lastRead? (before ++ some now :: between) = some now ∨
      ∃ last ∈ between.filterMap id, lastRead? (before ++ some now :: between) = some last := by
  have hlast : lastRead? (before ++ some now :: between) =
      (between.filterMap id).getLast?.or (some now) := by
    simp [lastRead?, List.filterMap_append, List.getLast?_append, List.getLast?_cons]
  rw [hlast]
  cases h : (between.filterMap id).getLast? with
  | none => exact .inl rfl
  | some last => exact .inr ⟨last, List.mem_of_getLast? h, rfl⟩

namespace AppendOnly

/-- What a history knows of a reload and of the last one before that could read the file. -/
theorem continues_last (h : AppendOnly (before ++ some now :: after))
    (hlast : lastRead? before = some last) : Continues last now ∧ Fits last ∧ Fits now := by
  have hmem := mem_of_lastRead? hlast
  obtain ⟨hcontinues, hfits⟩ := h
  rw [List.filterMap_append] at hcontinues hfits
  refine ⟨(List.pairwise_append.mp hcontinues).2.2 last hmem now (by simp), hfits last ?_,
    hfits now ?_⟩
  · exact List.mem_append_left _ hmem
  · simp

/-- A later reload announces a later line. -/
theorem lt_of_announces (h : AppendOnly (before ++ content :: between ++ content' :: after))
    (hi : Announces before content i) (hi' : Announces (before ++ content :: between) content' i') :
    i < i' := by
  obtain ⟨now, r, rfl, hnewest, -⟩ := hi
  obtain ⟨now', r', rfl, hnewest', harrival⟩ := hi'
  obtain ⟨_, last, -, hlast, -⟩ := exists_of_arrivalAfter harrival
  obtain ⟨hcontinues, hfits, hfits'⟩ := h.continues_last hlast
  obtain ⟨j, hj, hnew⟩ := exists_newest_of_arrivalAfter harrival hlast hcontinues hfits hfits'
  obtain rfl := hnewest'.unique hj
  -- the line of the first announcement holds a record ever after
  have hkept : (recordAt? last i).isSome := by
    have hnow : (recordAt? now i).isSome := by rw [hnewest.1]; rfl
    rcases lastRead?_append_cons before between now with heq | ⟨last', hmem, heq⟩
    · obtain rfl := Option.some.inj (hlast.symm.trans heq)
      exact hnow
    · obtain rfl := Option.some.inj (hlast.symm.trans heq)
      have hpairs := h.continues
      rw [List.append_assoc, List.filterMap_append] at hpairs
      have hmem' : last ∈ (between ++ some now' :: after).filterMap id := by
        rw [List.filterMap_append]
        exact List.mem_append_left _ hmem
      exact (List.rel_of_pairwise_cons (List.pairwise_append.mp hpairs).2.1 hmem').kept i hnow
  have hlater : (recordAt? now' i).isSome := hcontinues.kept i hkept
  rcases Nat.lt_trichotomy i i' with hlt | rfl | hgt
  · exact hlt
  · simp [hnew] at hkept
  · simp [hnewest'.2 i hgt] at hlater

end AppendOnly

theorem arrivals_append_singleton (contents : List (Option (List UInt8)))
    (content : Option (List UInt8)) :
    arrivals (contents ++ [content]) = arrivals contents ++ (arrivalAfter contents content).toList := by
  have hbefore : ∀ k ∈ List.range contents.length,
      arrivalAfter ((contents ++ [content]).take k) (contents ++ [content])[k]?.join =
        arrivalAfter (contents.take k) contents[k]?.join := by
    intro k hk
    have hk' : k < contents.length := List.mem_range.mp hk
    rw [List.take_append_of_le_length (Nat.le_of_lt hk'), List.getElem?_append_left hk']
  rw [arrivals, List.length_append, List.length_singleton, List.range_succ, List.filterMap_append,
    List.filterMap_congr hbefore, ← arrivals]
  cases h : arrivalAfter contents content <;> simp [h]

end DenialLog

/-! ## Runs of the monitor -/

namespace Front

/-- News that load the denial log reload it, and an arrival is an alert. -/
theorem take_of_content?_eq_some (f : Front) {n : News} {content : Option (List UInt8)}
    (h : n.content? = some content) :
    (f.take n).log = (f.log.reload content).2 ∧
      (f.take n).alerts = (f.log.reload content).1.toList ++ f.alerts := by
  cases n with
  | denials content' =>
    obtain rfl : content' = content := by simpa [News.content?] using h
    exact ⟨rfl, rfl⟩
  | _ => simp [News.content?] at h

/-- Other news leave the denial log alone, and the alerts as well. -/
theorem take_of_content?_eq_none (f : Front) {n : News} (h : n.content? = none) :
    (f.take n).log = f.log ∧ (f.take n).alerts = f.alerts := by
  cases n with
  | denials content => simp [News.content?] at h
  | acknowledge =>
    simp only [take]
    split <;> exact ⟨rfl, rfl⟩
  | _ => simp only [take, and_self]

end Front

namespace Monitor

open DenialLog

/-- The contents with which a run from the start has loaded the denial log, `none` where it could not
be read. -/
def denialReads (settings : Settings) (around : Surroundings) (daemonRuns : Bool)
    (actions : List Action) : List (Option (List UInt8)) :=
  around.disk.read? settings.paths.denials ::
    ((start settings around daemonRuns).newsAlong actions).filterMap News.content?

/-- The news of a run reload the denial log with the contents that they load it with, and alert of
what arrives then. -/
theorem log_foldl_take (news : List News) (f : Front) (reads : List (Option (List UInt8)))
    (hlog : f.log = empty.reloadAll reads) (halerts : f.alerts = (arrivals reads).reverse) :
    (news.foldl Front.take f).log = empty.reloadAll (reads ++ news.filterMap News.content?) ∧
      (news.foldl Front.take f).alerts =
        (arrivals (reads ++ news.filterMap News.content?)).reverse := by
  induction news generalizing f reads with
  | nil => simpa using ⟨hlog, halerts⟩
  | cons n news ih =>
    rw [List.foldl_cons]
    cases hn : n.content? with
    | none =>
      obtain ⟨hlog', halerts'⟩ := f.take_of_content?_eq_none hn
      rw [List.filterMap_cons_none hn]
      exact ih _ reads (hlog'.trans hlog) (halerts'.trans halerts)
    | some content =>
      obtain ⟨hlog', halerts'⟩ := f.take_of_content?_eq_some hn
      rw [List.filterMap_cons_some hn, List.append_cons]
      refine ih _ _ ?_ ?_
      · rw [reloadAll_append, ← hlog, hlog']
        rfl
      · rw [halerts', arrivals_append_singleton, arrivalAfter, ← hlog, List.reverse_append, halerts]
        cases (f.log.reload content).1 <;> rfl

/-- The alerts of a run are the arrivals of what it has loaded. -/
theorem alerts_eq (settings : Settings) (around : Surroundings) (daemonRuns : Bool)
    (actions : List Action) :
    ((start settings around daemonRuns).actAll actions).front.alerts =
      (arrivals (denialReads settings around daemonRuns actions)).reverse := by
  have hfirst (content : Option (List UInt8)) : arrivals [content] = [] := by
    cases content <;> rfl
  rw [front_actAll, front_start]
  exact (log_foldl_take _ _ [around.disk.read? settings.paths.denials] rfl (by rw [hfirst]; rfl)).2

end Monitor

namespace DenialLog

/-- **Arrivals in a log that grows.** Where bytes are only appended to the file, no record is spoiled
and the window covers all lines, a reload that cannot read the file announces nothing and leaves
nothing to show; the first one that can announces nothing either; and a later one announces a record
if and only if a line has come to hold one since the last one before it, and then the record on the
last line that holds one, which is such a line. A file that has not changed is not announced again,
and of two announcements the later one is about a later line. The monitor alerts of what is
announced.

**Proof sketch.** A line that holds a record keeps holding one, so more records in the window are
lines that have come to hold one. Only the last line can have changed, so the last line that holds a
record is among them. -/
theorem each_new_line_is_announced_once {contents : List (Option (List UInt8))}
    (h : AppendOnly contents) :
    (∀ before content after, contents = before ++ content :: after →
      let arrival := arrivalAfter before content
      let log := empty.reloadAll (before ++ [content])
      (content = none → arrival = none ∧ log.records = [] ∧ log.stats = []) ∧
      (lastRead? before = none → arrival = none) ∧
      (lastRead? before = content → arrival = none) ∧
      ∀ now last, content = some now → lastRead? before = some last →
        (arrival.isSome ↔ ∃ i, (recordAt? now i).isSome ∧ recordAt? last i = none) ∧
        ∀ r, arrival = some r → ∃ i, IsNewest now i r ∧ recordAt? last i = none) ∧
    (∀ before content between content' after i i',
      contents = before ++ content :: between ++ content' :: after →
      Announces before content i → Announces (before ++ content :: between) content' i' → i < i') ∧
    ∀ settings around daemonRuns actions,
      Monitor.denialReads settings around daemonRuns actions = contents →
      ((Monitor.start settings around daemonRuns).actAll actions).front.alerts =
        (arrivals contents).reverse := by
  refine ⟨?_, ?_, ?_⟩
  · rintro before content after rfl
    have hcannot : content = none → arrivalAfter before content = none := by
      rintro rfl
      rfl
    have hfirst : lastRead? before = none → arrivalAfter before content = none :=
      fun hnone => reload_of_lastRead?_eq_none hnone
    have hlater : ∀ now last, content = some now → lastRead? before = some last →
        ((arrivalAfter before content).isSome ↔
          ∃ i, (recordAt? now i).isSome ∧ recordAt? last i = none) ∧
        ∀ r, arrivalAfter before content = some r →
          ∃ i, IsNewest now i r ∧ recordAt? last i = none := by
      rintro now last rfl hlast
      obtain ⟨hcontinues, hfits, hfits'⟩ := h.continues_last hlast
      exact ⟨isSome_arrivalAfter_iff hlast hcontinues hfits hfits', fun r harrival =>
        exists_newest_of_arrivalAfter harrival hlast hcontinues hfits hfits'⟩
    refine ⟨fun hnone => ⟨hcannot hnone, ?_⟩, hfirst, fun hsame => ?_, hlater⟩
    · subst hnone
      rw [reloadAll_append]
      exact ⟨rfl, rfl⟩
    · cases content with
      | none => exact hfirst hsame
      | some now =>
        rw [← Option.not_isSome_iff_eq_none, (hlater now now rfl hsame).1]
        rintro ⟨i, hi, hnot⟩
        simp [hnot] at hi
  · rintro before content between content' after i i' rfl hi hi'
    exact h.lt_of_announces hi hi'
  · rintro settings around daemonRuns actions rfl
    exact Monitor.alerts_eq settings around daemonRuns actions

/-- A log that holds one denial, cannot be read for a while, and grows by another denial, which is
still being written when the first reload finds the file again. -/
def growingLog : List (Option (List UInt8)) :=
  [some (deletionsOf "/work/a" [1]), none, some ((deletionsOf "/work/a" [1, 2]).take 130),
    some (deletionsOf "/work/a" [1, 2])]

/-- Its second denial is announced by the last reload, as the one on a line that held none before. -/
theorem growingLog_announces_second_denial :
    AppendOnly growingLog ∧
      ∃ i, IsNewest (deletionsOf "/work/a" [1, 2]) i
          ⟨2, .delete, "/work/a", none, "/work/", "rm", "codex"⟩ ∧
        recordAt? ((deletionsOf "/work/a" [1, 2]).take 130) i = none := by
  have h : AppendOnly growingLog := ⟨by decide +kernel, by decide +kernel⟩
  have hlast := ((each_new_line_is_announced_once h).1 (growingLog.take 3)
    (some (deletionsOf "/work/a" [1, 2])) [] rfl).2.2.2 _ _ rfl rfl
  exact ⟨h, hlast.2 _ (by decide +kernel)⟩

end DenialLog

end DenialMonitor
