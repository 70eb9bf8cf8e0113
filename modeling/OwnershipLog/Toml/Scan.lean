/-!
# Scanning characters

A `Scan` reads a value off the front of a list of characters and leaves the rest,
or fails. An alternative starts over from where the first choice started.
-/

namespace OwnershipLog.Toml

/-- Reads a value off the front of a text, or fails. -/
abbrev Scan := StateT (List Char) Option

namespace Scan

variable {α : Type}

/-- One character of a class. -/
def one (p : Char → Bool) : Scan Char
  | [] => none
  | c :: rest => if p c then some (c, rest) else none

/-- Exactly this text. -/
def exactly (text : String) : Scan Unit := fun cs => (text.toList.isPrefixOf? cs).map ((), ·)

/-- As many characters of a class as there are. -/
def run (p : Char → Bool) : Scan (List Char) := fun cs => some (cs.takeWhile p, cs.dropWhile p)

/-- As many characters of a class as there are, and at least one. -/
def run1 (p : Char → Bool) : Scan (List Char) := do
  let c ← one p
  return c :: (← run p)

/-- The end of the text. -/
def finish : Scan Unit
  | [] => some ((), [])
  | _ :: _ => none

/-- A value if there is one here. -/
def attempt (scan : Scan α) : Scan (Option α) := some <$> scan <|> pure none

/-- What a scan finds in at most as many repetitions as `bound` has characters, after what was
`found`, newest first. -/
def gather (scan : Scan α) : (bound : List Char) → (found : List α) → List Char → List α × List Char
  | [], found, cs => (found.reverse, cs)
  | _ :: bound, found, cs =>
    match scan cs with
    | some (a, rest) => gather scan bound (a :: found) rest
    | none => (found.reverse, cs)

/-- As many values as there are, each of at least one character. -/
def many (scan : Scan α) : Scan (List α) := fun cs => some (gather scan cs [] cs)

/-- Values with separators between them, and at least one. -/
def separated (scan : Scan α) (separator : Scan Unit) : Scan (List α) := do
  let a ← scan
  return a :: (← many (separator *> scan))

theorem run_append (p : Char → Bool) (cs : List Char) :
    ∃ found rest, run p cs = some (found, rest) ∧ found ++ rest = cs ∧ found.all p :=
  ⟨_, _, rfl, List.takeWhile_append_dropWhile, List.all_takeWhile⟩

theorem many_of_none {scan : Scan α} {cs : List Char} (h : scan cs = none) :
    many scan cs = some ([], cs) := by
  cases cs <;> simp [many, gather, h]

end Scan

end OwnershipLog.Toml
