import OwnershipLog.Database.Image

/-!
# Spare pages

Pages that are not in use are listed, and taken again before the file grows. The
header names the first page of the list and says how many there are; each page of
the list names the next one and holds the numbers of further spare pages.
-/

namespace OwnershipLog

namespace Paging

/-- Refuse a page that is in use. -/
def demandUnused (n : Nat) : Paging Unit := do
  if n = 0 || (← get).held.contains n then throw .corrupt

/-- Which of the `left` numbers from place `i` of a list on is nearest to `near`, if not number
`best` before them, which is `distance` away. -/
def nearest (data : Block) (near : Nat) : (left i best distance : Nat) → Nat
  | 0, _, best, _ => best
  | left + 1, i, best, distance =>
    let n := Block.word data (8 + 4 * i)
    let away := (n - near) + (near - n)
    if away < distance then nearest data near left (i + 1) i away
    else nearest data near left (i + 1) best distance

/-- Clear a page for new use. -/
def blank (n : Nat) : Paging Unit := do
  write n (Block.zeros (← get).pageSize)
  uncount n

/-- A page at the end of the database. Pages that say what the others are for are left out. -/
def appended : Paging Nat := do
  touch 1
  modify fun image => { image with count := image.count + 1 }
  let image ← get
  if image.isMap image.count then
    demandUnused image.count
    touch image.count
    modify fun image => { image with count := image.count + 1 }
  let n := (← get).count
  setHeader 28 n
  demandUnused n
  blank n
  return n

/-- A page for new use: a spare one, near a page if that is not zero, or one at the end. -/
def fresh (near : Nat) : Paging Nat := do
  let image ← get
  let spare := image.header 36
  if image.count ≤ spare then throw .corrupt
  if spare = 0 then appended
  else
    setHeader 36 (spare - 1)
    let list := image.header 32
    if image.count < list then throw .corrupt
    let data ← page list
    demandUnused list
    let listed := Block.word data 4
    if listed = 0 then
      setHeader 32 (Block.word data 0)
      blank list
      return list
    else if image.usable / 4 - 2 < listed then throw .corrupt
    else
      let n := Block.word data 8
      let i := if near = 0 then 0
        else nearest data near (listed - 1) 1 0 ((n - near) + (near - n))
      let n := Block.word data (8 + 4 * i)
      if image.count < n || n < 2 then throw .corrupt
      let data := Block.setWord data (8 + 4 * i) (Block.word data (4 + 4 * listed))
      write list (Block.setWord data 4 (listed - 1))
      holding [list] (demandUnused n)
      blank n
      return n

/-- List a page as spare. -/
def free (n : Nat) : Paging Unit := do
  let image ← get
  if n < 2 || image.count < n then throw .corrupt
  uncount n
  let spare := image.header 36
  setHeader 36 (spare + 1)
  let list := image.header 32
  let full ←
    if spare = 0 then pure true
    else
      if image.count < list then throw .corrupt
      let data ← page list
      let listed := Block.word data 4
      if image.usable / 4 - 2 < listed then throw .corrupt
      if listed < image.usable / 4 - 8 then
        write list (Block.setWord (Block.setWord data 4 (listed + 1)) (8 + 4 * listed) n)
        pure false
      else pure true
  if full then
    let data ← page n
    write n (Block.setWord (Block.setWord data 0 (if spare = 0 then 0 else list)) 4 0)
    setHeader 32 n

end Paging

end OwnershipLog
