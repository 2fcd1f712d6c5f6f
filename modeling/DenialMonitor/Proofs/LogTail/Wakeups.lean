import DenialMonitor.LogTail.Tailer
import DenialMonitor.Proofs.LogTail.Epochs

set_option autoImplicit false

/-!
# Wake-ups of a reader

A reader that is woken by the directory of its log holds one wake-up at most: what happens while one
is waiting adds nothing. This loses nothing, since a reader takes the wake-up before it reads, and a
read finds everything that was written until then. So whenever no wake-up is waiting and the reader
is idle, it has read the log as far as it was written when something was heard of it last.

Readers of logs that were given up stand beside it as long as they are still reading. The reader of
the log is followed by its place among them, until it has ended.

## Main definitions

* `FollowedLog` — a log that is followed, with what its reader has delivered.
* `FollowedLog.Step` — what can happen.
* `FollowedLog.Along` — runs in which at most something is appended to the log.
* `FollowedLog.Knows` — what is known of the reader.

## Main results

* `FollowedLog.reader?_step` — what a step does to the reader.
* `FollowedLog.sound_step` — what is known is kept by every step.
* `FollowedLog.Followed.active?_eq` — the reader is the one that the tailer follows.
* `FollowedLog.no_wake_up_is_lost` — what an idle reader has delivered.
-/

namespace DenialMonitor

/-! ## Entries -/

namespace Entry

variable {e e' old : Entry}

theorem Extends.trans (h' : e'.Extends e) (h : e.Extends old) : e'.Extends old := by
  unfold Extends
  rcases h.cases with ⟨hold, he⟩ | ⟨before, new, hold, he⟩
  · rcases h'.cases with ⟨-, he'⟩ | ⟨_, _, he₂, -⟩
    · simp [hold, he']
    · rw [he] at he₂
      cases he₂
  · rcases h'.cases with ⟨he₂, -⟩ | ⟨_, newer, he₂, he'⟩
    · rw [he] at he₂
      cases he₂
    · obtain rfl := Node.file.inj (he.symm.trans he₂)
      simp [hold, he']

theorem Extends.refl (e : Entry) : e.Extends e := by
  unfold Extends
  cases e.node <;> simp

theorem Extends.size_le (h : e.Extends old) : old.size ≤ e.size := by
  rcases h.cases with ⟨hold, he⟩ | ⟨before, new, hold, he⟩
  · simp [size, hold, he]
  · simp [size_of_file hold, size_of_file he]

/-- What was there before stands in front. -/
theorem Extends.take_bytes (h : e.Extends old) : e.bytes.take old.size = old.bytes := by
  rcases h.cases with ⟨hold, he⟩ | ⟨before, new, hold, he⟩
  · simp [bytes, hold, he]
  · simp [bytes, size_of_file hold, hold, he]

end Entry

/-- What was found at a path is found again, and at most something was appended to it. -/
def Entry.FoundAgain : Except OsError Entry → Except OsError Entry → Prop
  | .ok old, .ok e => e.id = old.id ∧ e.Extends old
  | _, _ => False

instance : ∀ old e, Decidable (Entry.FoundAgain old e)
  | .ok old, .ok e => inferInstanceAs (Decidable (e.id = old.id ∧ e.Extends old))
  | .ok _, .error _ => inferInstanceAs (Decidable False)
  | .error _, _ => inferInstanceAs (Decidable False)

/-! ## Places -/

namespace LogReader

/-- Where reader number `k` stands once those that have ended are left out. -/
def placeAmong (readers : List LogReader) (k : Nat) : Option Nat :=
  (readers[k]?.filter (!·.hasEnded)).map fun _ => (readers.take k).countP (!·.hasEnded)

/-- At its place stands the reader, unless it has ended. -/
theorem getElem?_placeAmong (readers : List LogReader) (k : Nat) :
    ((placeAmong readers k).bind fun place => (readers.filter (!·.hasEnded))[place]?) =
      readers[k]?.filter (!·.hasEnded) := by
  induction readers generalizing k with
  | nil => simp [placeAmong]
  | cons r readers ih =>
    cases k with
    | zero => cases h : r.hasEnded <;> simp [placeAmong, Option.filter, h]
    | succ k =>
      rw [List.getElem?_cons_succ, ← ih k]
      simp only [placeAmong, List.getElem?_cons_succ, List.take_succ_cons]
      cases readers[k]?.filter (!·.hasEnded) with
      | none => rfl
      | some _ => cases h : r.hasEnded <;> simp [h]

theorem lt_of_placeAmong {readers : List LogReader} {k place : Nat}
    (h : placeAmong readers k = some place) : place < (readers.filter (!·.hasEnded)).length := by
  have hfound := getElem?_placeAmong readers k
  obtain ⟨r, hr, -⟩ := Option.map_eq_some_iff.mp h
  rw [h, hr, Option.bind_some] at hfound
  exact (List.getElem?_eq_some_iff.mp hfound).1

@[simp]
theorem hasEnded_deliver (r : LogReader) (path : String) (s : Signal) :
    (r.deliver path s).hasEnded = r.hasEnded := by
  unfold deliver wake
  repeat' split
  all_goals rfl

end LogReader

/-- A log that is followed, with what its reader has delivered. -/
structure FollowedLog where
  around : Surroundings
  tailer : LogTailer
  path : String
  /-- Where the reader of the log stands among the readers, until it has ended. -/
  place : Option Nat
  /-- What the reader has delivered, oldest first. -/
  batches : List (List LogLine)
  /-- How long the log was when something was heard of it last. -/
  announced : Nat

namespace FollowedLog

/-- What can happen. -/
inductive Step where
  /-- Someone changes files. -/
  | change (c : DiskChange)
  | refuseWatches (b : Bool)
  | pass (span : Nat)
  | signal (path : String) (s : Signal)
  /-- Reader number `i` gets to run. -/
  | run (i : Nat)
  | stop
  /-- Another log is to be followed. -/
  | start (path : String)
  deriving DecidableEq, Repr

/-- Whether the log is given up. -/
def Step.givesUp : Step → Bool
  | .stop | .start _ => true
  | _ => false

/-- The reader of the log, until it has ended. -/
def reader? (f : FollowedLog) : Option LogReader :=
  f.place.bind (f.tailer.readers[·]?)

/-- How long the log is. -/
def size (f : FollowedLog) : Nat :=
  match f.around.disk.entry f.path with
  | .ok e => e.size
  | .error _ => 0

/-- Whether a signal about `path` tells of something in the directory of the log that has its
name. -/
def names (f : FollowedLog) (path : String) : Signal → Bool
  | .notice _ => Path.fileName? path = Path.fileName? f.path &&
      Path.same (Path.parent path) (Path.parent f.path)
  | _ => false

/-- The log at `path` is followed from now on. -/
def begin (t : LogTailer) (path : String) (around : Surroundings) : FollowedLog :=
  let f : FollowedLog :=
    { around
      tailer := (t.start path around).2
      path
      place := some t.stop.readers.length
      batches := []
      announced := 0 }
  { f with announced := f.size }

/-- What a step does. -/
def step (f : FollowedLog) : Step → FollowedLog
  | .change c => { f with around := { f.around with disk := (f.around.disk.apply c).1 } }
  | .refuseWatches b => { f with around := { f.around with refusesWatches := b } }
  | .pass span => { f with around := { f.around with now := f.around.now + span } }
  | .signal path s =>
    { f with
      tailer := f.tailer.deliver path s
      announced := if f.names path s then f.size else f.announced }
  | .run i =>
    match f.tailer.readers[i]? with
    | none => f
    | some r =>
      { f with
        tailer := (f.tailer.run f.around i).2
        place := f.place.bind (LogReader.placeAmong (f.tailer.readers.set i (r.step f.around).2))
        batches :=
          f.batches ++ if f.place = some i then (f.tailer.run f.around i).1.toList else [] }
  | .stop =>
    { f with
      tailer := f.tailer.stop
      place := f.place.bind (LogReader.placeAmong (f.tailer.readers.map .cancel)) }
  | .start path =>
    { f with
      tailer := (f.tailer.start path f.around).2
      place := f.place.bind (LogReader.placeAmong (f.tailer.readers.map .cancel)) }

/-- What a list of steps does. -/
def run (f : FollowedLog) (steps : List Step) : FollowedLog :=
  steps.foldl step f

/-- A change of files leaves the log there, and at most something is appended to it. -/
def OnlyAppends (f : FollowedLog) : Step → Prop
  | .change c =>
    Entry.FoundAgain (f.around.disk.entry f.path) ((f.around.disk.apply c).1.entry f.path)
  | _ => True

instance (f : FollowedLog) (s : Step) : Decidable (f.OnlyAppends s) := by
  cases s <;> unfold OnlyAppends <;> infer_instance

/-- At most something is appended to the log by every step of a run. -/
def Along : FollowedLog → List Step → Prop
  | _, [] => True
  | f, s :: steps => f.OnlyAppends s ∧ Along (f.step s) steps

instance Along.decidable : ∀ (f : FollowedLog) steps, Decidable (f.Along steps)
  | _, [] => inferInstanceAs (Decidable True)
  | f, s :: steps =>
    have := Along.decidable (f.step s) steps
    inferInstanceAs (Decidable (f.OnlyAppends s ∧ Along (f.step s) steps))

variable {f : FollowedLog} {r : LogReader} {base : Nat}

/-! ## The reader -/

/-- What a step does to the reader. -/
def readerAfter (f : FollowedLog) (r : LogReader) : Step → LogReader
  | .signal path s => r.deliver path s
  | .run i => if f.place = some i then (r.step f.around).2 else r
  | .stop | .start _ => r.cancel
  | _ => r

/-- Where the readers are changed and those that have ended are left out, the reader is found at its
new place. -/
theorem getElem?_place (place : Option Nat) (readers : List LogReader) :
    ((place.bind (LogReader.placeAmong readers)).bind
      fun k => (readers.filter (!·.hasEnded))[k]?) =
        (place.bind (readers[·]?)).filter (!·.hasEnded) := by
  cases place with
  | none => rfl
  | some k => exact LogReader.getElem?_placeAmong readers k

theorem reader?_stop (f : FollowedLog) :
    (f.step .stop).reader? = (f.reader?.map .cancel).filter (!·.hasEnded) := by
  simp only [reader?, step, LogTailer.stop, getElem?_place, List.getElem?_map]
  cases f.place <;> rfl

/-- Another log that is followed comes behind. -/
theorem reader?_start (f : FollowedLog) (path : String) :
    (f.step (.start path)).reader? = (f.step .stop).reader? := by
  have hplace : (f.step (.start path)).place = (f.step .stop).place := rfl
  have hreaders : ∃ newer, (f.step (.start path)).tailer.readers =
      (f.step .stop).tailer.readers ++ newer := by
    simp only [step, LogTailer.start]
    split
    · exact ⟨[], (List.append_nil _).symm⟩
    · exact ⟨_, rfl⟩
  obtain ⟨newer, hreaders⟩ := hreaders
  rw [reader?, reader?, hplace, hreaders]
  cases hplace : (f.step .stop).place with
  | none => rfl
  | some k =>
    have hk : k < (f.step .stop).tailer.readers.length := by
      obtain ⟨_, -, hk⟩ := Option.bind_eq_some_iff.mp hplace
      exact LogReader.lt_of_placeAmong hk
    exact List.getElem?_append_left hk

theorem reader?_signal (f : FollowedLog) (path : String) (s : Signal) :
    (f.step (.signal path s)).reader? = f.reader?.map (·.deliver path s) := by
  simp only [reader?, step, LogTailer.deliver, List.getElem?_map]
  cases f.place <;> rfl

theorem reader?_run (f : FollowedLog) (i : Nat)
    (hended : ∀ r, f.reader? = some r → r.hasEnded = false) :
    (f.step (.run i)).reader? =
      (f.reader?.map fun r => f.readerAfter r (.run i)).filter (!·.hasEnded) := by
  cases hi : f.tailer.readers[i]? with
  | none =>
    have hother (r : LogReader) (hr : f.reader? = some r) : f.place ≠ some i := by
      rintro hplace
      rw [reader?, hplace, Option.bind_some, hi] at hr
      cases hr
    simp only [step, hi]
    cases hr : f.reader? with
    | none => rfl
    | some r => simp [readerAfter, hother r hr, Option.filter, hended r hr]
  | some r₀ =>
    have hreaders : (f.step (.run i)).tailer.readers =
        (f.tailer.readers.set i (r₀.step f.around).2).filter (!·.hasEnded) := by
      simp only [step, hi, LogTailer.run]
    have hplace : (f.step (.run i)).place =
        f.place.bind (LogReader.placeAmong (f.tailer.readers.set i (r₀.step f.around).2)) := by
      simp only [step, hi]
    rw [reader?, hreaders, hplace, getElem?_place]
    congr 1
    cases hk : f.place with
    | none => simp [reader?, hk]
    | some k =>
      by_cases hki : k = i
      · subst hki
        have hlt : k < f.tailer.readers.length := (List.getElem?_eq_some_iff.mp hi).1
        simp [reader?, hk, hi, readerAfter, List.getElem?_set_self hlt]
      · simp [reader?, hk, readerAfter, hki, List.getElem?_set_ne (Ne.symm hki)]

/-- What is left of the reader after a step. -/
theorem reader?_step (f : FollowedLog) (s : Step)
    (hended : ∀ r, f.reader? = some r → r.hasEnded = false) :
    (f.step s).reader? = (f.reader?.map (f.readerAfter · s)).filter (!·.hasEnded) := by
  have hkept : f.reader? = f.reader?.filter (!·.hasEnded) := by
    cases hr : f.reader? with
    | none => rfl
    | some r => simp [Option.filter, hended r hr]
  cases s with
  | stop => exact reader?_stop f
  | start path => exact (reader?_start f path).trans (reader?_stop f)
  | run i => exact reader?_run f i hended
  | signal path s =>
    rw [reader?_signal]
    cases hr : f.reader? with
    | none => rfl
    | some r => simp [readerAfter, Option.filter, hended r hr]
  | _ => exact hkept.trans (congrArg (Option.filter _) Option.map_id'.symm)

/-! ## What is known -/

/-- What is known of the reader while the path of its log names the entry `e`. It has delivered the
lines of an epoch that began at `base`, in which at most something was appended since the log was
read last. Unless a wake-up is waiting or it is about to read, it has read what was there when
something was heard of the log last. -/
structure Knows (f : FollowedLog) (base : Nat) (r : LogReader) (ep : TailCursor.Epoch) (e : Entry) :
    Prop where
  path_eq : r.cursor.path = f.path
  entry_eq : f.around.disk.entry f.path = .ok e
  read : ep.Read r.cursor
  base_eq : ep.base = base
  id_eq : e.id = ep.seen.id
  grown : e.Extends ep.seen
  lines_eq : ep.lines = f.batches.flatten
  announced_le : f.announced ≤ e.size
  woken : ∃ b, r.waking = .byDirectory b ∧ (b ∨ r.reading ∨ f.announced ≤ r.cursor.offset)

variable {ep : TailCursor.Epoch} {e : Entry}

/-- Other files and readers do not matter. -/
theorem Knows.congr {f' : FollowedLog} (h : f.Knows base r ep e) (hpath : f'.path = f.path)
    (hdisk : f'.around.disk = f.around.disk) (hbatches : f'.batches = f.batches)
    (hannounced : f'.announced = f.announced) : f'.Knows base r ep e := by
  obtain ⟨hpath', hentry, hread, hbase, hid, hgrown, hlines, hle, hwoken⟩ := h
  refine ⟨hpath'.trans hpath.symm, ?_, hread, hbase, hid, hgrown, ?_, ?_, ?_⟩
  · rw [hdisk, hpath, hentry]
  · rw [hlines, hbatches]
  · rw [hannounced]
    exact hle
  · rw [hannounced]
    exact hwoken

/-- The log may grow. -/
theorem Knows.change {c : DiskChange} (h : f.Knows base r ep e) (hc : f.OnlyAppends (.change c)) :
    ∃ e', (f.step (.change c)).Knows base r ep e' := by
  obtain ⟨hpath, hentry, hread, hbase, hid, hgrown, hlines, hle, hwoken⟩ := h
  rw [OnlyAppends, hentry] at hc
  cases hentry' : (f.around.disk.apply c).1.entry f.path with
  | error _ =>
    rw [hentry'] at hc
    exact hc.elim
  | ok e' =>
    rw [hentry'] at hc
    obtain ⟨hid', hgrown'⟩ := hc
    exact ⟨e', hpath, hentry', hread, hbase, hid'.trans hid, hgrown'.trans hgrown, hlines,
      Nat.le_trans hle hgrown'.size_le, hwoken⟩

/-- What tells of the log wakes its reader, and a wake-up that is waiting is kept. -/
theorem exists_deliver_eq {b : Bool} (hpath : r.cursor.path = f.path)
    (hwaking : r.waking = .byDirectory b) (path : String) (s : Signal) :
    ∃ b', r.deliver path s = { r with waking := .byDirectory b' } ∧ (b → b') ∧
      (f.names path s → b') := by
  have hkept : r = { r with waking := .byDirectory b } := by rw [← hwaking]
  cases s with
  | notice n =>
    by_cases hconcerns : r.concerns path
    · refine ⟨true, ?_, fun _ => rfl, fun _ => rfl⟩
      simp only [LogReader.deliver, LogReader.wake, hwaking, hconcerns, if_true]
    · refine ⟨b, ?_, id, fun hnames => absurd ?_ hconcerns⟩
      · simp only [LogReader.deliver, LogReader.wake, hwaking, hconcerns]
        exact hkept
      · rw [names, Bool.and_eq_true] at hnames
        rw [LogReader.concerns, hpath, hnames.1, hnames.2]
        rfl
  | _ => exact ⟨b, hkept, id, fun hnames => absurd hnames Bool.false_ne_true⟩

/-- What is heard of the log wakes the reader. -/
theorem Knows.signal (h : f.Knows base r ep e) (path : String) (s : Signal) :
    (f.step (.signal path s)).Knows base (r.deliver path s) ep e := by
  obtain ⟨hpath, hentry, hread, hbase, hid, hgrown, hlines, hle, b, hwaking, hwoken⟩ := h
  have hsize : f.size = e.size := by rw [size, hentry]
  have hannounced : (f.step (.signal path s)).announced =
      if f.names path s then e.size else f.announced := by
    rw [← hsize]
    rfl
  obtain ⟨b', hdelivered, hkept, hwakes⟩ := exists_deliver_eq hpath hwaking path s
  rw [hdelivered]
  refine ⟨hpath, hentry, hread, hbase, hid, hgrown, hlines, ?_, b', rfl, ?_⟩
  · rw [hannounced]
    split
    · exact Nat.le_refl _
    · exact hle
  · by_cases hnames : f.names path s
    · exact .inl (hwakes hnames)
    · rw [hannounced, if_neg hnames]
      exact hwoken.imp_left hkept

/-- A read finds everything that was written until then. -/
theorem Knows.poll (h : f.Knows base r ep e) :
    ∃ lines, (r.cursor.poll f.around.disk).1 = .ok lines ∧
      TailCursor.Epoch.Read ⟨ep.base, e, ep.lines ++ lines⟩ (r.cursor.poll f.around.disk).2 := by
  have hid : r.cursor.identity = e.id := h.read.identity.trans h.id_eq.symm
  have hkept : r.cursor.mustReset e = false := by
    have hoffset : r.cursor.offset ≤ e.size := h.read.offset ▸ h.grown.size_le
    simp [TailCursor.mustReset, hid, hoffset]
  rw [TailCursor.poll_eq (h.path_eq ▸ h.entry_eq), hkept]
  exact h.read.readOn hid h.grown

/-- Lines that are read are delivered, and nothing else. -/
theorem flatten_batch? (lines : List LogLine) :
    (LogReader.batch? (.ok lines)).toList.flatten = lines := by
  cases lines <;> simp [LogReader.batch?]

/-- A reader that is not reading may take a wake-up, and then it is about to read. -/
theorem exists_step_eq {b : Bool} (hreading : r.reading = false)
    (hwaking : r.waking = .byDirectory b) (s : Surroundings) :
    ∃ b' reading, r.step s = (none, { r with waking := .byDirectory b', reading }) ∧
      (b → b' ∨ reading) := by
  have hkept : r = { r with waking := .byDirectory b, reading := false } := by
    rw [← hwaking, ← hreading]
  by_cases hcancelled : r.cancelled
  · have hstep : r.step s = (none, r) := by
      simp [LogReader.step, hreading, hcancelled]
    exact ⟨b, false, hstep.trans (congrArg (Prod.mk none) hkept), .inl⟩
  · cases b with
    | true =>
      refine ⟨false, true, ?_, fun _ => .inr rfl⟩
      simp [LogReader.step, hreading, hcancelled, LogReader.takeWakeUp?, hwaking]
    | false =>
      have hstep : r.step s = (none, r) := by
        simp [LogReader.step, hreading, hcancelled, LogReader.takeWakeUp?, hwaking]
      exact ⟨false, false, hstep.trans (congrArg (Prod.mk none) hkept), .inl⟩

/-- The reader gets to run, and takes a wake-up or reads. -/
theorem Knows.run {i : Nat} (h : f.Knows base r ep e) (hplace : f.place = some i)
    (hr : f.reader? = some r) :
    ∃ ep, (f.step (.run i)).Knows base (r.step f.around).2 ep e := by
  have hi : f.tailer.readers[i]? = some r := by
    rwa [reader?, hplace, Option.bind_some] at hr
  have hbatches : (f.step (.run i)).batches = f.batches ++ (r.step f.around).1.toList := by
    simp only [step, hi, hplace, if_true, LogTailer.run]
  obtain ⟨hpath, haround, hannounced⟩ : (f.step (.run i)).path = f.path ∧
      (f.step (.run i)).around = f.around ∧ (f.step (.run i)).announced = f.announced := by
    simp only [step, hi, and_self]
  obtain ⟨b, hwaking, hwoken⟩ := h.woken
  by_cases hreading : r.reading
  · obtain ⟨lines, hlines, hread⟩ := h.poll
    have hstep : r.step f.around = (LogReader.batch? (.ok lines),
        { r with cursor := (r.cursor.poll f.around.disk).2, reading := false }) := by
      simp only [LogReader.step, hreading, if_true, hlines]
    refine ⟨⟨ep.base, e, ep.lines ++ lines⟩, ?_⟩
    rw [hstep] at hbatches ⊢
    refine ⟨?_, ?_, hread, h.base_eq, rfl, .refl e, ?_, ?_, b, hwaking, .inr (.inr ?_)⟩
    · rw [hpath, ← h.path_eq]
      exact TailCursor.path_poll ..
    · rw [hpath, haround]
      exact h.entry_eq
    · rw [hbatches, List.flatten_append, flatten_batch?, h.lines_eq]
    · rw [hannounced]
      exact h.announced_le
    · rw [hannounced, hread.offset]
      exact h.announced_le
  · rw [Bool.not_eq_true] at hreading
    obtain ⟨b', reading, hstep, hkept⟩ := exists_step_eq hreading hwaking f.around
    rw [hstep] at hbatches ⊢
    have hsame := h.congr hpath (congrArg _ haround) (hbatches.trans (List.append_nil _)) hannounced
    refine ⟨ep, hsame.path_eq, hsame.entry_eq, hsame.read, hsame.base_eq, hsame.id_eq, hsame.grown,
      hsame.lines_eq, hsame.announced_le, b', rfl, ?_⟩
    rw [hannounced]
    rcases hwoken with hb | hr | hoffset
    · exact (hkept hb).imp_right .inl
    · rw [hreading] at hr
      cases hr
    · exact .inr (.inr hoffset)

/-- What is known is kept by every step.

**Proof sketch.** Only a change of files and the reader itself touch what is known. The reader takes
a wake-up before it reads, so what it was woken for is read. -/
theorem Knows.step (h : f.Knows base r ep e) (hr : f.reader? = some r) {s : Step}
    (hs : f.OnlyAppends s) : ∃ ep e, (f.step s).Knows base (f.readerAfter r s) ep e := by
  cases s with
  | change c =>
    obtain ⟨e', h'⟩ := h.change hs
    exact ⟨ep, e', h'⟩
  | signal path s => exact ⟨ep, e, h.signal path s⟩
  | run i =>
    by_cases hplace : f.place = some i
    · obtain ⟨ep', h'⟩ := h.run hplace hr
      refine ⟨ep', e, ?_⟩
      rw [readerAfter, if_pos hplace]
      exact h'
    · refine ⟨ep, e, ?_⟩
      rw [readerAfter, if_neg hplace]
      refine h.congr ?_ ?_ ?_ ?_ <;> simp only [FollowedLog.step] <;> split <;> simp [hplace]
  | _ => exact ⟨ep, e, h.path_eq, h.entry_eq, h.read, h.base_eq, h.id_eq, h.grown, h.lines_eq,
      h.announced_le, h.woken⟩

/-! ## Runs -/

/-- Nothing empty was delivered, the reader has not ended, and enough is known of it. -/
structure Sound (f : FollowedLog) (base : Nat) : Prop where
  nonempty : ∀ batch ∈ f.batches, batch ≠ []
  not_ended : ∀ r, f.reader? = some r → r.hasEnded = false
  knows : ∀ r, f.reader? = some r → ∃ ep e, f.Knows base r ep e

theorem ne_nil_of_batch? {polled : Except OsError (List LogLine)} {batch : List LogLine}
    (h : LogReader.batch? polled = some batch) : batch ≠ [] := by
  unfold LogReader.batch? at h
  split at h
  · cases h
    exact List.cons_ne_nil _ _
  · cases h

/-- What a reader delivers is not empty. -/
theorem ne_nil_of_step {s : Surroundings} {batch : List LogLine}
    (h : (r.step s).1 = some batch) : batch ≠ [] := by
  unfold LogReader.step at h
  split at h
  · exact ne_nil_of_batch? h
  · split at h <;> cases h

theorem nonempty_step (h : ∀ batch ∈ f.batches, batch ≠ []) (s : Step) :
    ∀ batch ∈ (f.step s).batches, batch ≠ [] := by
  cases s with
  | run i =>
    simp only [step]
    split
    · exact h
    · next r hi =>
      intro batch hbatch
      rcases List.mem_append.mp hbatch with hold | hnew
      · exact h batch hold
      · split at hnew
        · rw [Option.mem_toList, LogTailer.run, hi] at hnew
          exact ne_nil_of_step hnew
        · cases hnew
  | _ => exact h

theorem sound_step (h : f.Sound base) {s : Step} (hs : f.OnlyAppends s) :
    (f.step s).Sound base := by
  have hreader (r' : LogReader) (hr' : (f.step s).reader? = some r') :
      r'.hasEnded = false ∧ ∃ r, f.reader? = some r ∧ f.readerAfter r s = r' := by
    rw [f.reader?_step s h.not_ended, Option.filter_eq_some_iff] at hr'
    obtain ⟨r, hr, rfl⟩ := Option.map_eq_some_iff.mp hr'.1
    exact ⟨by simpa using hr'.2, r, hr, rfl⟩
  refine ⟨nonempty_step h.nonempty s, fun r' hr' => (hreader r' hr').1, fun r' hr' => ?_⟩
  obtain ⟨-, r, hr, rfl⟩ := hreader r' hr'
  obtain ⟨ep, e, hknows⟩ := h.knows r hr
  exact hknows.step hr hs

theorem sound_run (h : f.Sound base) {steps : List Step} (hsteps : f.Along steps) :
    (f.run steps).Sound base := by
  induction steps generalizing f with
  | nil => exact h
  | cons s steps ih => exact ih (sound_step h hsteps.1) hsteps.2

theorem path_step (f : FollowedLog) (s : Step) : (f.step s).path = f.path := by
  cases s with
  | run i =>
    simp only [step]
    split <;> rfl
  | _ => rfl

theorem path_run (f : FollowedLog) (steps : List Step) : (f.run steps).path = f.path := by
  induction steps generalizing f with
  | nil => rfl
  | cons s steps ih => exact (ih (f.step s)).trans (f.path_step s)

/-! ## The reader that the tailer follows -/

/-- The reader has not been asked to stop, and all others have. -/
structure Followed (f : FollowedLog) (r : LogReader) : Prop where
  reader?_eq : f.reader? = some r
  not_cancelled : r.cancelled = false
  alone : f.tailer.readers.countP (!·.cancelled) = 1

/-- The only reader that has not been asked to stop is the one that is followed. -/
theorem Followed.active?_eq (h : f.Followed r) : f.tailer.active? = some r := by
  obtain ⟨k, -, hk⟩ := Option.bind_eq_some_iff.mp h.reader?_eq
  have hmem : r ∈ f.tailer.readers.filter (!·.cancelled) :=
    List.mem_filter.mpr ⟨List.mem_of_getElem? hk, by simp [h.not_cancelled]⟩
  have hlength : (f.tailer.readers.filter (!·.cancelled)).length = 1 := by
    rw [← List.countP_eq_length_filter, h.alone]
  obtain ⟨r', hr'⟩ := List.length_eq_one_iff.mp hlength
  obtain rfl : r = r' := by
    rw [hr'] at hmem
    exact List.mem_singleton.mp hmem
  rw [LogTailer.active?, ← List.head?_filter, hr', List.head?_cons]

theorem cancelled_deliver (r : LogReader) (path : String) (s : Signal) :
    (r.deliver path s).cancelled = r.cancelled := by
  unfold LogReader.deliver LogReader.wake
  repeat' split
  all_goals rfl

theorem cancelled_step (r : LogReader) (s : Surroundings) :
    (r.step s).2.cancelled = r.cancelled := by
  unfold LogReader.step
  split
  · rfl
  · split
    · rfl
    · unfold LogReader.takeWakeUp?
      repeat' split
      all_goals rfl

/-- Who has not been asked to stop has not ended. -/
theorem countP_filter_hasEnded (readers : List LogReader) :
    (readers.filter (!·.hasEnded)).countP (!·.cancelled) = readers.countP (!·.cancelled) := by
  rw [List.countP_filter]
  refine List.countP_congr fun r _ => ?_
  cases h : r.cancelled <;> simp [LogReader.hasEnded, h]

/-- Getting to run does not ask anyone to stop. -/
theorem countP_set_step {readers : List LogReader} {i : Nat} (hi : readers[i]? = some r)
    (s : Surroundings) :
    (readers.set i (r.step s).2).countP (!·.cancelled) = readers.countP (!·.cancelled) := by
  induction readers generalizing i with
  | nil => rfl
  | cons r' readers ih =>
    cases i with
    | zero =>
      obtain rfl : r' = r := by simpa using hi
      simp only [List.set_cons_zero, List.countP_cons, cancelled_step]
    | succ i =>
      rw [List.getElem?_cons_succ] at hi
      simp only [List.set_cons_succ, List.countP_cons, ih hi]

theorem countP_step (f : FollowedLog) {s : Step} (hs : s.givesUp = false) :
    (f.step s).tailer.readers.countP (!·.cancelled) = f.tailer.readers.countP (!·.cancelled) := by
  cases s with
  | signal path s =>
    simp only [step, LogTailer.deliver, List.countP_map, Function.comp_def, cancelled_deliver]
  | run i =>
    cases hi : f.tailer.readers[i]? with
    | none => simp only [step, hi]
    | some r => simp only [step, hi, LogTailer.run, countP_filter_hasEnded, countP_set_step hi]
  | stop => cases hs
  | start path => cases hs
  | _ => rfl

theorem Followed.step (h : f.Followed r) {s : Step} (hs : s.givesUp = false) :
    (f.step s).Followed (f.readerAfter r s) := by
  have hcancelled : (f.readerAfter r s).cancelled = false := by
    rw [← h.not_cancelled]
    cases s with
    | signal path s => exact cancelled_deliver r path s
    | run i =>
      simp only [readerAfter]
      split
      · exact cancelled_step r f.around
      · rfl
    | stop => cases hs
    | start path => cases hs
    | _ => rfl
  refine ⟨?_, hcancelled, (countP_step f hs).trans h.alone⟩
  rw [f.reader?_step s, h.reader?_eq]
  · simp [LogReader.hasEnded, hcancelled, Option.filter]
  · intro r' hr'
    obtain rfl : r = r' := Option.some.inj (h.reader?_eq.symm.trans hr')
    simp [LogReader.hasEnded, h.not_cancelled]

theorem exists_followed_run (h : f.Followed r) {steps : List Step}
    (hsteps : ∀ s ∈ steps, s.givesUp = false) : ∃ r, (f.run steps).Followed r := by
  induction steps generalizing f r with
  | nil => exact ⟨r, h⟩
  | cons s steps ih =>
    exact ih (h.step (hsteps s List.mem_cons_self))
      fun s' hs' => hsteps s' (List.mem_cons_of_mem _ hs')

/-! ## Giving up -/

/-- A reader that has ended delivers nothing any more. -/
theorem batches_run_of_place (hplace : f.place = none) (steps : List Step) :
    (f.run steps).batches = f.batches := by
  induction steps generalizing f with
  | nil => rfl
  | cons s steps ih =>
    have hstep : (f.step s).place = none ∧ (f.step s).batches = f.batches := by
      cases s with
      | run i =>
        simp only [step]
        split <;> simp [hplace]
      | _ => exact ⟨by simp [step, hplace], rfl⟩
    exact (ih hstep.1).trans hstep.2

/-- A reader that is not reading ends when its log is given up. -/
theorem place_step_of_givesUp (hr : f.reader? = some r) (hreading : r.reading = false) {s : Step}
    (hs : s.givesUp) : (f.step s).place = none := by
  obtain ⟨k, hplace, hk⟩ := Option.bind_eq_some_iff.mp hr
  have hended : LogReader.placeAmong (f.tailer.readers.map .cancel) k = none := by
    simp [LogReader.placeAmong, hk, Option.filter, LogReader.cancel, LogReader.hasEnded, hreading]
  cases s with
  | stop => simp only [step, hplace, Option.bind_some, hended]
  | start path => simp only [step, hplace, Option.bind_some, hended]
  | _ => cases hs

/-! ## The beginning -/

/-- A reader behind everything that the entry `e` at `path` holds, which the directory wakes. -/
def atEnd (path : String) (e : Entry) (interval : Nat) : LogReader :=
  { cursor := ⟨path, e.size, e.id, []⟩
    waking := .byDirectory false
    interval := min (max interval LogReader.minInterval) longestWait
    reading := false
    cancelled := false }

variable {t : LogTailer} {path : String} {around : Surroundings}

/-- The reader of a log whose directory can be watched stands at its end. -/
theorem exists_openAt_eq {interval : Nat} (hwatched : around.refusesWatches = false)
    (hname : (Path.fileName? path).isSome)
    (hopened : (LogReader.openAt path around interval).isOk) :
    ∃ e, around.disk.entry path = .ok e ∧
      LogReader.openAt path around interval = .ok (atEnd path e interval) := by
  have hnamed : (Path.fileName? path).isNone = false := by
    rw [Option.isNone_eq_false_iff]
    exact hname
  cases hentry : around.disk.entry path with
  | error err =>
    simp [LogReader.openAt, TailCursor.atEnd, hentry, bind, Except.bind, Except.isOk,
      Except.toBool] at hopened
  | ok e =>
    refine ⟨e, rfl, ?_⟩
    simp [LogReader.openAt, TailCursor.atEnd, hentry, bind, Except.bind, hwatched, hnamed, atEnd]

theorem exists_followed_begin (hopened : (t.start path around).1)
    (hwatched : around.refusesWatches = false) (hname : (Path.fileName? path).isSome) :
    ∃ e, around.disk.entry path = .ok e ∧
      (begin t path around).Followed (atEnd path e t.interval) := by
  have hok : (LogReader.openAt path around t.interval).isOk := by
    unfold LogTailer.start at hopened
    split at hopened
    · cases hopened
    · next hreader => rw [hreader]; rfl
  obtain ⟨e, hentry, hreader⟩ := exists_openAt_eq hwatched hname hok
  have hreaders : (begin t path around).tailer.readers =
      t.stop.readers ++ [atEnd path e t.interval] := by
    simp only [begin, LogTailer.start, hreader]
  have hothers : t.stop.readers.countP (!·.cancelled) = 0 := by
    rw [LogTailer.stop, countP_filter_hasEnded]
    simp [LogReader.cancel]
  refine ⟨e, hentry, ?_, rfl, ?_⟩
  · rw [reader?, hreaders]
    exact List.getElem?_concat_length
  · rw [hreaders, List.countP_append, hothers]
    rfl

theorem sound_begin {e : Entry} (hentry : around.disk.entry path = .ok e)
    (hfollowed : (begin t path around).Followed (atEnd path e t.interval)) :
    (begin t path around).Sound e.size := by
  have hreader (r : LogReader) (hr : (begin t path around).reader? = some r) :
      atEnd path e t.interval = r :=
    Option.some.inj (hfollowed.reader?_eq.symm.trans hr)
  have hannounced : (begin t path around).announced = e.size := by
    simp only [begin, size, hentry]
  refine ⟨fun batch hbatch => absurd hbatch List.not_mem_nil, fun r hr => ?_, fun r hr => ?_⟩
  · rw [← hreader r hr]
    rfl
  · rw [← hreader r hr]
    refine ⟨⟨e.size, e, []⟩, e, rfl, hentry, TailCursor.Epoch.read_atEnd path e, rfl, rfl,
      .refl e, rfl, Nat.le_of_eq hannounced, false, rfl, .inr (.inr ?_)⟩
    exact Nat.le_of_eq hannounced

/-- An idle reader for which no wake-up is waiting has read what was there when something was heard
of its log last. -/
theorem Knows.announced_le_offset (h : f.Knows base r ep e) (hreading : r.reading = false)
    (hwaking : r.waking = .byDirectory false) : f.announced ≤ r.cursor.offset := by
  obtain ⟨b, hb, hwoken⟩ := h.woken
  obtain rfl := LogReader.Waking.byDirectory.inj (hb.symm.trans hwaking)
  simpa [hreading] using hwoken

/-- What is known of the reader tells what it has delivered. -/
theorem Knows.flatten_batches (h : f.Knows base r ep e) :
    f.batches.flatten = TailCursor.decodeLines ((e.bytes.take r.cursor.offset).drop base) := by
  obtain ⟨complete, hcut, hlines⟩ := h.read.cut
  rw [← h.lines_eq, hlines, hcut.pieces_eq, h.read.offset, h.grown.take_bytes, h.base_eq]
  rfl

/-- **No wake-up is lost.** Take a run in which a log is followed whose directory is watched, and to
which at most something is appended. No batch that its reader has delivered is empty, and together
they are the lines that were completed since it was opened, up to where the reader has read. When
the reader is idle and no wake-up is waiting, it has read at least what was there when something was
heard of the log last. As long as nobody gives the log up, its reader is the one that the tailer
follows. A reader that is idle when the log is given up delivers nothing any more, whether a wake-up
is waiting or not.

**Proof sketch.** The reader takes a wake-up before it reads. So a wake-up that is dropped, since
another one is waiting, is made up for by the read that the waiting one leads to. -/
theorem no_wake_up_is_lost (t : LogTailer) (path : String) (around : Surroundings)
    (hopened : (t.start path around).1) (hwatched : around.refusesWatches = false)
    (hname : (Path.fileName? path).isSome) (steps : List Step)
    (hsteps : (begin t path around).Along steps) :
    let f₀ := begin t path around
    let f := f₀.run steps
    (∀ batch ∈ f.batches, batch ≠ []) ∧
    (∀ r, f.reader? = some r → ∃ e, f.around.disk.entry path = .ok e ∧
      r.cursor.offset ≤ e.size ∧
      f.batches.flatten =
        TailCursor.decodeLines ((e.bytes.take r.cursor.offset).drop f₀.size) ∧
      (r.reading = false → r.waking = .byDirectory false → f.announced ≤ r.cursor.offset)) ∧
    ((∀ s ∈ steps, s.givesUp = false) → f.reader?.isSome ∧ f.tailer.active? = f.reader?) ∧
    ∀ r, f.reader? = some r → r.reading = false → ∀ s, s.givesUp → ∀ later,
      ((f.step s).run later).batches = f.batches := by
  intro f₀ f
  obtain ⟨e₀, hentry₀, hfollowed⟩ := exists_followed_begin hopened hwatched hname
  have hsize : f₀.size = e₀.size := by
    show (match around.disk.entry path with | .ok e => e.size | .error _ => 0) = e₀.size
    rw [hentry₀]
  have hsound : f.Sound e₀.size := sound_run (sound_begin hentry₀ hfollowed) hsteps
  refine ⟨hsound.nonempty, fun r hr => ?_, fun hkept => ?_, fun r hr hreading s hs later => ?_⟩
  · obtain ⟨ep, e, hknows⟩ := hsound.knows r hr
    have hpath : f.path = path := path_run f₀ steps
    refine ⟨e, hpath ▸ hknows.entry_eq, ?_, ?_, hknows.announced_le_offset⟩
    · rw [hknows.read.offset]
      exact hknows.grown.size_le
    · rw [hsize]
      exact hknows.flatten_batches
  · obtain ⟨r, hr⟩ := exists_followed_run hfollowed hkept
    refine ⟨?_, hr.active?_eq.trans hr.reader?_eq.symm⟩
    rw [hr.reader?_eq]
    rfl
  · rw [batches_run_of_place (place_step_of_givesUp hr hreading hs)]
    cases s with
    | stop => rfl
    | start path => rfl
    | _ => cases hs

/-- Surroundings with a log whose last line is not complete. -/
def partlyWritten : Surroundings :=
  ⟨Tailing.partOfLog, false, 0⟩

/-- The log is written to and the directory tells so. -/
def appended (text : String) : List Step :=
  [.change (.append "/log" (Utf8.encode text)), .signal "/log" (.notice (.modified .content))]

/-- The second wake-up is dropped, and the third one comes between the first one and its read. -/
def threeAppends : List Step :=
  appended "rt\nden" ++ appended "ied\n" ++ [.run 0] ++ appended "end\n" ++ [.run 0, .run 0, .run 0]

/-- What was written with a wake-up that was dropped is delivered, and nothing is delivered
twice. -/
theorem coalesced_appends_are_delivered :
    ((begin (.new 2000) "/log" partlyWritten).run threeAppends).batches.flatten =
      [.classify "rt", .classify "denied", .classify "end"] := by
  obtain ⟨-, hreader, -⟩ := no_wake_up_is_lost (.new 2000) "/log" partlyWritten
    (by decide +kernel) rfl (by decide +kernel) threeAppends (by decide +kernel)
  obtain ⟨e, hentry, -, hlines, -⟩ := hreader _ (Option.some_get (by decide +kernel)).symm
  have hbytes : some e.bytes = some (Utf8.encode "old\npart\ndenied\nend\n") := by
    have hfound := congrArg (fun found => found.toOption.map Entry.bytes) hentry
    exact hfound.symm.trans (by decide +kernel)
  rw [hlines, Option.some.inj hbytes]
  decide +kernel

end FollowedLog

end DenialMonitor
