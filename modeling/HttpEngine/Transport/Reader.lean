import HttpEngine.Transport.Intake

/-!
# A reader in memory

The bytes that a link has read ahead lie in one buffer, which is allocated once, between two
indices into it. A machine works on them with words: **every sum and every difference has to
fit into one**, and every index into the buffer.

* `Overflow`: what becomes of a result that does not fit.
* `Reader.fill`: one read into the front of the buffer, charged to the read budget.
* `Reader.readLine`, `Reader.readBytes`, `Reader.readBody`: lines and bodies.
* `Reader.seen`: a reader as a link.
-/

namespace HttpEngine

open Text

/-- What becomes of a result that does not fit into a word. -/
inductive Overflow
  /-- It stops the program. -/
  | trapped
  /-- The word holds what fits of it. -/
  | wrapped
  deriving DecidableEq, Repr

/-- The numbers of a reader's options **are words**. -/
structure ReaderOptions.InWords (o : ReaderOptions) : Prop where
  bufferSize_le : o.bufferSize ≤ maxWord64
  retries_le : o.retries ≤ maxWord32
  maxLine_le : o.maxLine ≤ maxWord64

/-- A stream and the memory in which its bytes are read ahead. -/
structure Reader where
  /-- The stream and its budgets. What it says of bytes read ahead does not count. -/
  link : Link
  buffer : Bytes
  /-- Where the bytes begin that are read ahead. -/
  index : Nat := 0
  /-- Where they end. -/
  count : Nat := 0
  deriving Repr

namespace Reader

/-- Why an activity of a reader stopped. -/
inductive Fault
  /-- As an activity of a link stops. -/
  | halted (h : Halt IoError)
  /-- A result did not fit into a word. -/
  | overflow
  /-- An index was outside of the buffer. -/
  | outOfRange
  deriving DecidableEq, Repr

/-- An activity of a reader. -/
abbrev Act (α : Type) := EStateM Fault Reader α

/-- A reader that has read nothing yet. **Its buffer has room for one byte at least.** -/
def new (l : Link) : Reader := { link := l, buffer := List.replicate l.options.room 0 }

/-- The bytes that are read ahead. -/
def unread (r : Reader) : Bytes := (r.buffer.take r.count).drop r.index

/-- A reader as a link. -/
def seen (r : Reader) : Link := { r.link with taken := r.index, unread := r.unread }

/-- An activity on the stream. -/
def onLink {α : Type} (act : Link.Act α) : Act α := fun r =>
  match act r.link with
  | .ok a l => .ok a { r with link := l }
  | .error h l => .error (.halted h) { r with link := l }

/-- Fail as a link does. -/
def fail {α : Type} (cause : IoError) : Act α := throw (.halted (.failed cause))

/-! ### Words -/

/-- Go on if a result fits, **or if a word holds what fits of it**. -/
def fits (o : Overflow) (p : Prop) [Decidable p] : Act Unit :=
  if p ∨ o = .wrapped then return () else throw .overflow

/-- A sum. -/
def plus (o : Overflow) (m n : Nat) : Act Nat := do
  fits o (m + n ≤ maxWord64)
  return (m + n) % (maxWord64 + 1)

/-- A difference. -/
def minus (o : Overflow) (m n : Nat) : Act Nat := do
  fits o (n ≤ m)
  return (m + (maxWord64 + 1) - n) % (maxWord64 + 1)

/-- The bytes of the buffer **from `start` to `stop`**. -/
def stretch (start stop : Nat) : Act { bytes : Bytes // start + bytes.length = stop } := do
  let r ← get
  if h : start ≤ stop ∧ stop ≤ r.buffer.length then
    return ⟨(r.buffer.take stop).drop start, by
      simp only [List.length_drop, List.length_take]
      omega⟩
  else throw .outOfRange

/-! ### One read -/

/-- Put bytes into the front of the buffer, where there are `room` places for them. -/
def put (room : Nat) (bytes : Bytes) : Act Unit := do
  if bytes.length ≤ room then
    modify fun r => { r with buffer := bytes ++ r.buffer.drop bytes.length }
  else throw .outOfRange

/-- Charge so many bytes to the read budget. -/
def charge (amount : Nat) : Act Unit := do
  match (← get).link.readLeft.spend amount with
  | some left => modify fun r => { r with link := { r.link with readLeft := left } }
  | none => fail (.overBudget .read)

/-- One read into the first `room` places of the buffer: **how many bytes it brought**. They
are in the buffer even if the budget does not suffice. -/
def fill (o : Overflow) (room : Nat) : Act Nat := do
  let _ ← stretch 0 room
  let before := 0
  let bytes ← onLink (Link.onWire (Wire.read room))
  put room bytes
  let brought ← minus o (before + bytes.length) before
  charge brought
  return brought

/-- Let some time pass after an empty read. -/
def nap : Act Unit := do onLink (Link.onWire (Wire.pause (← get).link.options.delay))

/-- Every empty read that is counted leaves **one less** to be tried again. -/
theorem triesLeft_lt {empties retries : UInt32} (h : ¬ empties = retries) :
    (retries - (empties + 1)).toNat < (retries - empties).toNat := by
  have hne : empties.toNat ≠ retries.toNat := fun he => h (UInt32.toNat_inj.1 he)
  have hlt := empties.toNat_lt
  have hlt' := retries.toNat_lt
  simp only [UInt32.toNat_sub, UInt32.toNat_add, UInt32.toNat_one]
  omega

/-! ### Lines -/

/-- Fill the buffer, after so many empty reads in a row. The answer is no when there were as
many as are tried again **and one more**. -/
def refill (o : Overflow) (retries empties : UInt32) : Act Bool := do
  let brought ← fill o (← get).buffer.length
  if 0 < brought then
    modify fun r => { r with index := 0, count := brought }
    return true
  else if h : empties = retries then
    modify fun r => { r with index := 0, count := 0 }
    return false
  else
    fits o (empties.toNat + 1 ≤ maxWord32)
    nap
    refill o retries (empties + 1)
termination_by (retries - empties).toNat
decreasing_by
  exact triesLeft_lt h

/-- Consume the byte at the index. -/
def consume (o : Overflow) : Act UInt8 := do
  let r ← get
  match r.buffer[r.index]? with
  | some b =>
    let index ← plus o r.index 1
    modify fun r => { r with index }
    return b
  | none => throw .outOfRange

/-- Consume one byte, filling the buffer when it is used up; none at the end of the stream. -/
def nextByte (o : Overflow) (retries : UInt32) : Act (Option UInt8) := do
  let r ← get
  if r.index = r.count then
    if !(← refill o retries 0) then return none
  return some (← consume o)

/-- The longest line and one more byte, **as far as a word holds it**. -/
def lineCeiling (maxLine : Nat) : Nat := (maxLine + 1) % (maxWord64 + 1)

/-- Read on to the end of a line of which `line` has been read. **What is read without an end
is compared with the longest line and one more byte.** -/
def lineFrom (o : Overflow) (retries : UInt32) (maxLine : Nat) (line : Bytes) :
    Act (Option Bytes) := do
  match ← nextByte o retries with
  | none => return none
  | some b =>
    let line := line ++ [b]
    if crlf <:+ line then
      let length ← minus o line.length 2
      return some (line.take length)
    else
      fits o (maxLine + 1 ≤ maxWord64)
      if _h : lineCeiling maxLine < line.length then fail (.lineTooLong maxLine)
      else lineFrom o retries maxLine line
termination_by lineCeiling maxLine - line.length
decreasing_by
  rw [List.length_append, List.length_singleton] at _h ⊢
  omega

/-- The bytes **before the next carriage return and line feed**, none when the stream ends
first. -/
def readLine (o : Overflow) : Act (Option Bytes) := do
  let options := (← get).link.options
  lineFrom o (.ofNat options.retries) options.maxLine []

/-! ### Bodies -/

/-- Read on to the end of a body of which `out` has been read, after so many empty reads in a
row. The buffer is used up by then, and **serves for what comes in pieces**. -/
def bodyFrom (o : Overflow) (retries : UInt32) (count : Nat) (empties : UInt32) (out : Bytes) :
    Act Bytes := do
  if _hout : out.length < count then
    modify fun r => { r with index := 0, count := 0 }
    let missing ← minus o count out.length
    let brought ← fill o (min missing (← get).buffer.length)
    let ⟨more, _hmore⟩ ← stretch 0 brought
    if _hpos : 0 < brought then bodyFrom o retries count 0 (out ++ more)
    else if _h : empties = retries then fail (.bodyCutShort (out ++ more).length count)
    else
      fits o (empties.toNat + 1 ≤ maxWord32)
      nap
      bodyFrom o retries count (empties + 1) (out ++ more)
  else return out
termination_by (count - out.length, (retries - empties).toNat)
decreasing_by
  · apply Prod.Lex.left
    rw [List.length_append]
    omega
  · have hnone : more = [] := List.eq_nil_of_length_eq_zero (by omega)
    rw [hnone, List.append_nil]
    exact Prod.Lex.right _ (triesLeft_lt _h)

/-- How many bytes are read ahead. -/
def buffered (o : Overflow) : Act Nat := do
  let r ← get
  minus o r.count r.index

/-- **Exactly `count` bytes**, those read ahead first. -/
def readBytes (o : Overflow) (count : Nat) : Act Bytes := do
  let ahead := min (← buffered o) count
  let r ← get
  let index ← plus o r.index ahead
  let ⟨bytes, _⟩ ← stretch r.index index
  modify fun r => { r with index }
  bodyFrom o (.ofNat r.link.options.retries) count 0 bytes

/-- Exactly `count` bytes, or a failure **before anything is read** when the bytes not yet read
ahead are more than the read budget allows. -/
def readBody (o : Overflow) (count : Nat) : Act Bytes := do
  let ahead ← buffered o
  match (← get).link.readLeft.spend (count - ahead) with
  | none => fail (.overBudget .read)
  | some _ => readBytes o count

end Reader

end HttpEngine
