import DenialMonitor.Disk.Change
import DenialMonitor.LogTail.Cursor
import DenialMonitor.Proofs.Text.Split

set_option autoImplicit false

/-!
# Epochs of a cursor

A cursor follows a log from one reset to the next. Such a stretch is an epoch: it begins where the
log is opened, behind everything that is there, or at the beginning of the file, where the cursor
was reset. As long as the file is only appended to, the lines that the polls of an epoch deliver are
those of the bytes since its beginning, however the bytes came in parts: a part may end inside a
line, a character or an escape sequence. What is held back when an epoch ends is dropped.

## Main definitions

* `Entry.Extends` — at most something was appended to a file.
* `TailCursor.Epoch` — where an epoch began, what was found last, and the lines delivered.
* `Tailing` — a log that is followed while files change.
* `Tailing.Along` — runs in which polls succeed and files only grow within an epoch.

## Main results

* `TailCursor.Epoch.Read.readOn` — reading on keeps what is known of an epoch.
* `Tailing.delivers_every_byte_once` — the lines of an epoch are those of its bytes.
-/

namespace DenialMonitor

/-- The bytes that can be read of an entry. A directory has none. -/
def Entry.bytes (e : Entry) : List UInt8 :=
  match e.node with
  | .directory => []
  | .file content => content

/-- An entry is what `old` has become, to which at most something was appended. -/
def Entry.Extends (e old : Entry) : Prop :=
  match old.node, e.node with
  | .directory, .directory => True
  | .file before, .file content => before <+: content
  | _, _ => False

instance (e old : Entry) : Decidable (e.Extends old) := by
  unfold Entry.Extends
  split <;> infer_instance

namespace Entry

variable {e old : Entry}

theorem size_of_file {content : List UInt8} (h : e.node = .file content) :
    e.size = content.length := by
  simp [size, h]

theorem bytes_of_file {content : List UInt8} (h : e.node = .file content) : e.bytes = content := by
  simp [bytes, h]

/-- A directory stays one, and a file has more bytes behind those it had. -/
theorem Extends.cases (h : e.Extends old) :
    (old.node = .directory ∧ e.node = .directory) ∨
      ∃ before new, old.node = .file before ∧ e.node = .file (before ++ new) := by
  unfold Extends at h
  split at h
  · next hold he => exact .inl ⟨hold, he⟩
  · next before content hold he =>
    obtain ⟨new, rfl⟩ := h
    exact .inr ⟨before, new, hold, he⟩
  · exact h.elim

end Entry

namespace TailCursor

variable {c : TailCursor} {d : Disk} {e : Entry}

/-- Reads what an entry holds behind the cursor. -/
def readOn (c : TailCursor) (e : Entry) : Except OsError (List LogLine) × TailCursor :=
  if e.size = c.offset then (.ok [], c)
  else
    match e.node with
    | .directory => (.error .isADirectory, c)
    | .file content =>
      (.ok (c.feed (content.drop c.offset)).1, (c.feed (content.drop c.offset)).2)

/-- A poll that finds an entry reads on, from the beginning where it must. -/
theorem poll_eq (h : d.entry c.path = .ok e) :
    c.poll d = (if c.mustReset e then c.reset e else c).readOn e := by
  rw [poll, h]
  rfl

/-- A poll that finds nothing changes nothing. -/
theorem poll_of_notFound (h : d.entry c.path = .error .notFound) : c.poll d = (.ok [], c) := by
  simp only [poll, h]

@[simp]
theorem path_readOn (c : TailCursor) (e : Entry) : (c.readOn e).2.path = c.path := by
  unfold readOn
  split
  · rfl
  · split <;> rfl

theorem path_poll (c : TailCursor) (d : Disk) : (c.poll d).2.path = c.path := by
  cases he : d.entry c.path with
  | error e => cases e <;> simp only [poll, he]
  | ok e =>
    rw [poll_eq he, path_readOn]
    split <;> rfl

/-- From the beginning only a file can be read. -/
theorem extends_of_isOk_readOn_reset (h : ((c.reset e).readOn e).1.isOk) :
    e.Extends ⟨e.id, .file []⟩ := by
  obtain ⟨id, _ | content⟩ := e
  · simp [readOn, reset, Entry.size, Except.isOk, Except.toBool] at h
  · exact List.nil_prefix

/-! ## Epochs -/

/-- A stretch of reading without a reset. -/
structure Epoch where
  /-- Where in the file it began. -/
  base : Nat
  /-- What the path named when it was found last. -/
  seen : Entry
  /-- The lines delivered since. -/
  lines : List LogLine

namespace Epoch

/-- The epoch after the cursor `c` has polled. Where the cursor is reset, another epoch begins at
the beginning of the file. -/
def afterPoll (ep : Epoch) (c : TailCursor) (d : Disk) : Epoch :=
  match d.entry c.path with
  | .error _ => ep
  | .ok e =>
    { base := if c.mustReset e then 0 else ep.base
      seen := e
      lines := (if c.mustReset e then [] else ep.lines) ++ (c.poll d).1.toOption.getD [] }

/-- What is known of an epoch: the cursor stands at the end of what was found last, and the bytes
since the beginning of the epoch are cut into the lines delivered and those held back. -/
structure Read (ep : Epoch) (c : TailCursor) : Prop where
  identity : c.identity = ep.seen.id
  offset : c.offset = ep.seen.size
  base_le : ep.base ≤ ep.seen.size
  cut : ∃ complete, Split.IsCut lineFeed (ep.seen.bytes.drop ep.base) complete c.pending ∧
    ep.lines = complete.filterMap LogLine.decode?

variable {ep : Epoch}

/-- An epoch begins behind everything that an entry holds. -/
theorem read_atEnd (path : String) (e : Entry) : Read ⟨e.size, e, []⟩ ⟨path, e.size, e.id, []⟩ := by
  refine ⟨rfl, rfl, Nat.le_refl _, [], ⟨?_, by simp, by simp⟩, rfl⟩
  obtain ⟨id, _ | content⟩ := e <;> simp [Entry.bytes, Entry.size]

/-- An epoch begins at the beginning of a file, as if the file had been found empty. -/
theorem read_reset (c : TailCursor) (e : Entry) : Read ⟨0, ⟨e.id, .file []⟩, []⟩ (c.reset e) :=
  ⟨rfl, rfl, Nat.le_refl _, [], ⟨rfl, by simp, by simp [reset]⟩, rfl⟩

/-- Where nothing was appended nothing is delivered. -/
theorem feed_nil (h : lineFeed ∉ c.pending) : c.feed [] = ([], c) := by
  simp [feed, decodeLines, Split.cut_of_not_mem h]

/-- Reading on in a file to which at most something was appended succeeds, and keeps what is known.

**Proof sketch.** What is read are the bytes behind those that were found before. They are cut
together with the bytes held back, and so the bytes since the beginning of the epoch are cut. -/
theorem Read.readOn (h : ep.Read c) (hid : c.identity = e.id) (hext : e.Extends ep.seen) :
    ∃ lines, (c.readOn e).1 = .ok lines ∧ Read ⟨ep.base, e, ep.lines ++ lines⟩ (c.readOn e).2 := by
  obtain ⟨-, hoffset, hbase, complete, hcut, hlines⟩ := h
  rcases hext.cases with ⟨hold, he⟩ | ⟨before, new, hold, he⟩
  · have hsize : e.size = ep.seen.size := by simp [Entry.size, hold, he]
    have hbytes : e.bytes = ep.seen.bytes := by simp [Entry.bytes, hold, he]
    have hread : c.readOn e = (.ok [], c) := by simp [TailCursor.readOn, hsize, hoffset]
    rw [hread]
    refine ⟨[], rfl, hid, hoffset.trans hsize.symm, hsize ▸ hbase, complete, ?_, ?_⟩
    · simpa only [hbytes] using hcut
    · simpa using hlines
  · have hbefore : c.offset = before.length := hoffset.trans (Entry.size_of_file hold)
    have hsize : e.size = before.length + new.length := by simp [Entry.size_of_file he]
    have hread : c.readOn e = (.ok (c.feed new).1, (c.feed new).2) := by
      by_cases hnew : new = []
      · simp [TailCursor.readOn, hsize, hbefore, hnew, feed_nil hcut.not_mem_rest]
      · simp [TailCursor.readOn, hsize, hbefore, hnew, he]
    rw [hread]
    refine ⟨_, rfl, hid, ?_, ?_, complete ++ (Split.cut lineFeed (c.pending ++ new)).1, ?_, ?_⟩
    · simp [feed, hsize, hbefore]
    · rw [Entry.size_of_file hold] at hbase
      simp only [hsize]
      omega
    · have hcut' := hcut.append (Split.isCut_cut lineFeed (c.pending ++ new))
      rw [Entry.size_of_file hold] at hbase
      rw [Entry.bytes_of_file hold, ← List.drop_append_of_le_length hbase] at hcut'
      simp only [Entry.bytes_of_file he]
      exact hcut'
    · simp [hlines, feed, decodeLines]

end Epoch

end TailCursor

/-! ## Runs -/

/-- A log that is followed while files change. -/
structure Tailing where
  disk : Disk
  cursor : TailCursor
  epoch : TailCursor.Epoch

namespace Tailing

/-- A step of a run. -/
inductive Step where
  /-- Someone changes files. -/
  | change (c : DiskChange)
  | poll
  deriving DecidableEq, Repr

/-- The log at `path` is opened, and the first epoch begins. -/
def openAt (d : Disk) (path : String) : Except OsError Tailing := do
  let e ← d.entry path
  let cursor ← TailCursor.atEnd d path
  .ok ⟨d, cursor, e.size, e, []⟩

/-- What a step does. -/
def step (t : Tailing) : Step → Tailing
  | .change c => { t with disk := (t.disk.apply c).1 }
  | .poll =>
    { t with
      cursor := (t.cursor.poll t.disk).2
      epoch := t.epoch.afterPoll t.cursor t.disk }

/-- What a list of steps does. -/
def run (t : Tailing) (steps : List Step) : Tailing :=
  steps.foldl step t

/-- If the log is found and the cursor need not be reset, at most something was appended to what was
found last. -/
def OnlyGrew (t : Tailing) : Prop :=
  match t.disk.entry t.cursor.path with
  | .error _ => True
  | .ok e => t.cursor.mustReset e = false → e.Extends t.epoch.seen

instance (t : Tailing) : Decidable t.OnlyGrew := by
  unfold OnlyGrew
  split <;> infer_instance

/-- A poll succeeds, and within an epoch the log was only appended to. -/
def Proper (t : Tailing) : Step → Prop
  | .change _ => True
  | .poll => (t.cursor.poll t.disk).1.isOk ∧ t.OnlyGrew

instance (t : Tailing) (s : Step) : Decidable (t.Proper s) := by
  cases s <;> unfold Proper <;> infer_instance

/-- Every step of a run is proper. -/
def Along : Tailing → List Step → Prop
  | _, [] => True
  | t, s :: steps => t.Proper s ∧ Along (t.step s) steps

instance Along.decidable : ∀ (t : Tailing) steps, Decidable (t.Along steps)
  | _, [] => inferInstanceAs (Decidable True)
  | t, s :: steps =>
    have := Along.decidable (t.step s) steps
    inferInstanceAs (Decidable (t.Proper s ∧ Along (t.step s) steps))

variable {t : Tailing}

theorem path_step (t : Tailing) (s : Step) : (t.step s).cursor.path = t.cursor.path := by
  cases s with
  | change c => rfl
  | poll => exact TailCursor.path_poll t.cursor t.disk

theorem path_run (t : Tailing) (steps : List Step) : (t.run steps).cursor.path = t.cursor.path := by
  induction steps generalizing t with
  | nil => rfl
  | cons s steps ih => exact (ih (t.step s)).trans (t.path_step s)

/-- What is known of an epoch is kept by every step.

**Proof sketch.** A poll that finds the log reads on, in the epoch at hand or in a new one, which
begins as if the file had been found empty. -/
theorem read_step (h : t.epoch.Read t.cursor) {s : Step} (hs : t.Proper s) :
    (t.step s).epoch.Read (t.step s).cursor := by
  cases s with
  | change c => exact h
  | poll =>
    obtain ⟨hok, hgrew⟩ := hs
    unfold OnlyGrew at hgrew
    simp only [step, TailCursor.Epoch.afterPoll]
    cases he : t.disk.entry t.cursor.path with
    | error e =>
      have hpoll : (t.cursor.poll t.disk).2 = t.cursor := by
        cases e <;> simp only [TailCursor.poll, he]
      rw [hpoll]
      exact h
    | ok e =>
      simp only [he] at hgrew ⊢
      rw [TailCursor.poll_eq he] at hok ⊢
      by_cases hreset : t.cursor.mustReset e = true
      · simp only [hreset, if_true] at hok ⊢
        have hfile : e.Extends ⟨e.id, .file []⟩ := TailCursor.extends_of_isOk_readOn_reset hok
        obtain ⟨lines, hlines, hread⟩ := (TailCursor.Epoch.read_reset t.cursor e).readOn rfl hfile
        rw [hlines]
        exact hread
      · simp only [hreset, Bool.false_eq_true, if_false]
        have hid : t.cursor.identity = e.id := by
          simp only [TailCursor.mustReset, Bool.or_eq_true, not_or] at hreset
          simpa using hreset.1
        obtain ⟨lines, hlines, hread⟩ := h.readOn hid (hgrew (by simpa using hreset))
        rw [hlines]
        exact hread

theorem read_run (h : t.epoch.Read t.cursor) {steps : List Step} (hsteps : t.Along steps) :
    (t.run steps).epoch.Read (t.run steps).cursor := by
  induction steps generalizing t with
  | nil => exact h
  | cons s steps ih => exact ih (read_step h hsteps.1) hsteps.2

/-- The log with other bytes held back. -/
def holding (t : Tailing) (held : List UInt8) : Tailing :=
  { t with cursor := { t.cursor with pending := held } }

/-- A poll that resets the cursor drops what is held back. -/
theorem step_poll_holding {e : Entry} (he : t.disk.entry t.cursor.path = .ok e)
    (hreset : t.cursor.mustReset e) (held : List UInt8) :
    (t.holding held).step .poll = t.step .poll := by
  have hpoll : (t.holding held).cursor.poll t.disk = t.cursor.poll t.disk := by
    have hreset' : (t.holding held).cursor.mustReset e = true := hreset
    rw [TailCursor.poll_eq (c := (t.holding held).cursor) he, TailCursor.poll_eq he, hreset', hreset]
    rfl
  have hafter : t.epoch.afterPoll (t.holding held).cursor t.disk =
      t.epoch.afterPoll t.cursor t.disk := by
    unfold TailCursor.Epoch.afterPoll
    rw [hpoll]
    rfl
  show { t with
    cursor := ((t.holding held).cursor.poll t.disk).2
    epoch := t.epoch.afterPoll (t.holding held).cursor t.disk } = t.step .poll
  rw [hpoll, hafter]
  rfl

/-- **Every byte is delivered once.** After every run in which polls succeed and files only grow
within an epoch, the bytes of the log from the beginning of the epoch to its end when it was found
last are cut into complete lines, whose decodings are the lines delivered in the epoch, and the
bytes held back. The cursor stands at that end. A log that is missing is passed over, and what is
held back when the cursor is reset does not matter any more. -/
theorem delivers_every_byte_once {d : Disk} {path : String} {t₀ : Tailing}
    (hopen : openAt d path = .ok t₀) (steps : List Step) (hsteps : t₀.Along steps) :
    let t := t₀.run steps
    (∃ complete, Split.IsCut TailCursor.lineFeed (t.epoch.seen.bytes.drop t.epoch.base) complete
        t.cursor.pending ∧ t.epoch.lines = complete.filterMap LogLine.decode?) ∧
      t.cursor.offset = t.epoch.seen.size ∧
      (t.disk.entry path = .error .notFound → t.cursor.poll t.disk = (.ok [], t.cursor)) ∧
      ∀ e, t.disk.entry path = .ok e → t.cursor.mustReset e → ∀ held later,
        (t.holding held).run (.poll :: later) = t.run (.poll :: later) := by
  intro t
  obtain ⟨e₀, he₀, rfl⟩ : ∃ e, d.entry path = .ok e ∧
      t₀ = ⟨d, ⟨path, e.size, e.id, []⟩, e.size, e, []⟩ := by
    cases he : d.entry path with
    | error e =>
      simp only [openAt, he, bind, Except.bind, reduceCtorEq] at hopen
    | ok e =>
      simp only [openAt, TailCursor.atEnd, he, bind, Except.bind, Except.ok.injEq] at hopen
      exact ⟨e, rfl, hopen.symm⟩
  have hpath : t.cursor.path = path := path_run _ steps
  have hread := read_run (TailCursor.Epoch.read_atEnd path e₀) hsteps
  refine ⟨hread.cut, hread.offset, fun hmissing => ?_, fun e he hreset held later => ?_⟩
  · exact TailCursor.poll_of_notFound (hpath ▸ hmissing)
  · have hstep := step_poll_holding (hpath ▸ he) hreset held
    exact congrArg (·.run later) hstep

/-- A disk with a log whose last line is not complete. -/
def partOfLog : Disk :=
  (Disk.empty.apply (.write "/log" (Utf8.encode "old\npa"))).1

/-- The log grows by parts that end inside a line and inside an escape sequence, and is away for a
while. -/
def growInParts : List Step :=
  [.change (.append "/log" (Utf8.encode "rt\n\x1b[3")), .poll,
    .change (.rename "/log" "/log.1"), .poll, .change (.rename "/log.1" "/log"),
    .change (.append "/log" (Utf8.encode "1mden")), .poll,
    .change (.append "/log" (Utf8.encode "ied\n")), .poll]

/-- A log that grows in parts is read as if it had grown at once. -/
theorem lines_growInParts :
    ∃ t, openAt partOfLog "/log" = .ok t ∧
      (t.run growInParts).epoch.lines = [.classify "rt", .classify "denied"] := by
  have hopen : openAt partOfLog "/log" = .ok _ := rfl
  refine ⟨_, hopen, ?_⟩
  obtain ⟨⟨complete, hcut, hlines⟩, -⟩ :=
    delivers_every_byte_once hopen growInParts (by decide +kernel)
  rw [hlines, hcut.pieces_eq]
  decide +kernel

end Tailing

end DenialMonitor
