set_option autoImplicit false

/-!
# Cutting sequences at separators

A file is a sequence of lines, each ended by a separator; what follows the last separator is a
line that is still being written. The same cut serves bytes (a log that grows), characters (a log
that is read whole) and the parts of a path.

## Main definitions

* `Split.cut` — the complete pieces of a sequence and its unfinished rest.
* `Split.pieces` — the pieces between separators.
* `Split.lines` — the lines of a text, with LF or CRLF as line ends.
-/

namespace DenialMonitor.Split

variable {α : Type} [BEq α]

/-- One more element in front of pieces that have been cut. -/
def push (sep x : α) : List (List α) × List α → List (List α) × List α
  | ([], rest) => if x == sep then ([[]], rest) else ([], x :: rest)
  | (l :: ls, rest) => if x == sep then ([] :: l :: ls, rest) else ((x :: l) :: ls, rest)

/-- The complete pieces of `xs`, without their separators, and what follows the last one. -/
def cut (sep : α) (xs : List α) : List (List α) × List α :=
  xs.foldr (push sep) ([], [])

@[simp] theorem cut_nil (sep : α) : cut sep ([] : List α) = ([], []) := rfl

@[simp] theorem cut_cons (sep x : α) (xs : List α) :
    cut sep (x :: xs) = push sep x (cut sep xs) := rfl

/-- The pieces of `xs` between separators, empty ones included. -/
def pieces (sep : α) (xs : List α) : List (List α) :=
  (cut sep xs).1 ++ [(cut sep xs).2]

/-- A complete line without the carriage return of a CRLF line end. -/
def dropCarriageReturn (line : List Char) : List Char :=
  if line.getLast? = some '\r' then line.dropLast else line

/-- The lines of a text. A line ends at LF or CRLF; an unfinished last line counts when it holds
anything, and keeps a carriage return at its end. -/
def lines (cs : List Char) : List (List Char) :=
  (cut '\n' cs).1.map dropCarriageReturn ++
    (if (cut '\n' cs).2.isEmpty then [] else [(cut '\n' cs).2])

end DenialMonitor.Split
