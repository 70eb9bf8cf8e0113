/-!
# Sharing out entries

Neighbours of one node share out their entries over as many pages as these need.
Each page is first filled as far as it goes, from the left; then the pages are
evened out from the right. A share is a number of entries; where entries stand
between two pages, one after each share belongs to neither.
-/

namespace OwnershipLog

/-- How entries are shared out over pages. -/
structure Shares where
  /-- How many bytes the entries on each page take, their places in the table included. -/
  filled : List Int
  /-- For each page, the entry that comes first after it. -/
  stops : List Nat
deriving Repr

namespace Shares

/-- How the entries to be shared out are given. -/
structure Task where
  /-- The size of each entry. -/
  sizes : Array Nat
  /-- How many bytes each page has for entries. -/
  room : Int
  /-- Whether the entries between two pages stand on neither of them. -/
  divided : Bool

/-- How many bytes entry `i` takes with its place in the table; none after the last one. -/
def Task.cost (task : Task) (i : Nat) : Int :=
  if i < task.sizes.size then ((task.sizes.getD i 0 + 2 : Nat) : Int) else 0

/-- How many bytes the next page loses or gains when the end of a page moves over entry `i`. -/
def Task.passed (task : Task) (i : Nat) : Int := task.cost (if task.divided then i + 1 else i)

/-- Move entries from the end of a page to the next one until the page is not too full: the bytes
on both, and where the page then stops. -/
def Task.shrink (task : Task) : (fuel : Nat) → (here next : Int) → (stop : Nat) →
    Option (Int × Int × Nat)
  | 0, _, _, _ => none
  | fuel + 1, here, next, stop =>
    if here ≤ task.room then some (here, next, stop)
    else if stop = 0 then none
    else task.shrink fuel (here - task.cost (stop - 1)) (next + task.passed (stop - 1)) (stop - 1)

/-- Move entries from the beginning of the next page to a page as long as it has room. -/
def Task.grow (task : Task) : (fuel : Nat) → (here next : Int) → (stop : Nat) → Int × Int × Nat
  | 0, here, next, stop => (here, next, stop)
  | fuel + 1, here, next, stop =>
    if task.sizes.size ≤ stop || task.room < here + task.cost stop then (here, next, stop)
    else task.grow fuel (here + task.cost stop) (next - task.passed stop) (stop + 1)

/-- Fill one page after the other. `before` is where the page before stops; `pages` are the bytes on
the pages still to come, and where these stop so far. At most `left` more pages are made. -/
def Task.fill (task : Task) : (left before : Nat) → (pages : List (Int × Nat)) →
    Option (List (Int × Nat))
  | 0, _, _ => none
  | _, _, [] => some []
  | left + 1, before, (here, stop) :: rest => do
    let count := task.sizes.size
    let (next, nextStop) := rest.headD (0, count)
    let (here, next, stop) ← task.shrink (count + 1) here next stop
    let (here, next, stop) := task.grow (count + 1) here next stop
    if count ≤ stop then some [(here, stop)]
    else if stop ≤ before then none
    else some ((here, stop) :: (← task.fill left stop ((next, nextStop) :: rest.drop 1)))

/-- Move entries from the end of the left one of two pages to the right one as long as that makes
them more even. The right one must not stay empty. -/
def Task.even (task : Task) (last : Bool) : (fuel : Nat) → (left right : Int) → (stop : Nat) →
    Int × Int × Nat
  | 0, left, right, stop => (left, right, stop)
  | fuel + 1, left, right, stop =>
    let moved := task.cost (stop - 1) - 2
    let gained := task.cost (if task.divided then stop else stop - 1) - 2
    let spare : Int := if last then 0 else 2
    if stop = 0 || (right ≠ 0 && left - (moved + spare) < right + gained + 2) then
      (left, right, stop)
    else task.even last fuel (left - (moved + 2)) (right + (gained + 2)) (stop - 1)

/-- Even out the pages from the right, the last one first: the pages to the left of the one at hand
from right to left, and those already done. -/
def Task.evenAll (task : Task) : (left : List (Int × Nat)) → (here : Int × Nat) →
    (last : Bool) → (done : List (Int × Nat)) → Option (List (Int × Nat))
  | [], here, _, done => some (here :: done)
  | (filled, stop) :: left, here, last, done =>
    let (filled, right, stop) := task.even last (task.sizes.size + 1) filled here.1 stop
    if stop ≤ (left.headD (0, 0)).2 then none
    else task.evenAll left (filled, stop) false ((right, here.2) :: done)

/-- Share out the entries over pages that hold some of them already. At most five are made. -/
def Task.share (task : Task) (pages : List (Int × Nat)) : Option Shares := do
  let filled ← task.fill 5 0 pages
  match filled.reverse with
  | [] => none
  | here :: left =>
    let done ← task.evenAll left here true []
    some ⟨done.map (·.1), done.map (·.2)⟩

end Shares

end OwnershipLog
