import HttpEngine.Proofs.Transport.Unbuffered

/-!
# Calls of a reader

A reader over a stream that ends gives, call by call, what the rule for one call says of the
**bytes not yet consumed**: neither the cutting into reads nor the size of the read buffer is
to be seen, and nothing is lost or read twice.

* `Call.onBytes`: the rule for one call.
* `Link.left`: the bytes not consumed, those read ahead before those not delivered.
* `Link.trace_eq_plain`: any calls in any order.
-/

namespace HttpEngine

open Text

/-- A call of a reader. -/
inductive Call
  | line
  | bytes (count : Nat)
  deriving DecidableEq, Repr

/-- What a call gives. -/
inductive Answer
  /-- A line as text, or none. -/
  | line (text : Option String)
  | bytes (data : Bytes)
  deriving DecidableEq, Repr

namespace Call

/-- A call made of a link. -/
def onLink : Call → Link.Act Answer
  | line => do return .line ((← Link.readLine).map latin1)
  | bytes count => do return .bytes (← Link.readBytes count)

/-- What a call comes to when `left` is not yet consumed and a line has **at most `maxLine`
bytes**, and what is left after it. -/
def onBytes (maxLine : Nat) : Call → Bytes → Except IoError Answer × Bytes
  | line, left =>
    match cutAt crlf left with
    | some (text, rest) =>
      if text.length ≤ maxLine then (.ok (.line (some (latin1 text))), rest)
      else (.error (.lineTooLong maxLine), left.drop (maxLine + 2))
    | none =>
      if left.length < maxLine + 2 then (.ok (.line none), [])
      else (.error (.lineTooLong maxLine), left.drop (maxLine + 2))
  | bytes count, left =>
    if count ≤ left.length then (.ok (.bytes (left.take count)), left.drop count)
    else (.error (.bodyCutShort left.length count), [])

end Call

/-- The answers to calls on a byte string, each with **what is left** after it. -/
def Plain.trace (maxLine : Nat) : List Call → Bytes → List (Except (Halt IoError) Answer × Bytes)
  | [], _ => []
  | call :: calls, left =>
    let (answer, rest) := call.onBytes maxLine left
    (answer.mapError .failed, rest) :: trace maxLine calls rest

/-- The bytes a script has not delivered. -/
def Script.undelivered (s : Script) : Bytes :=
  s.pieces.flatMap fun
    | .data bytes => bytes
    | .failure _ => []

/-- The bytes that have not been delivered. -/
def Inbound.undelivered : Inbound → Bytes
  | script s => s.undelivered
  | peer runs _ => runs.flatMap (·.2)

namespace Link

/-- The bytes **not consumed**: those read ahead, then those not delivered. -/
def left (l : Link) : Bytes := l.unread ++ l.wire.inbound.undelivered

/-- The answers to calls on a link, each with what is left after it. -/
def trace : List Call → Link → List (Except (Halt IoError) Answer × Bytes)
  | [], _ => []
  | call :: calls, l =>
    match call.onLink l with
    | .ok answer l' => (.ok answer, l'.left) :: trace calls l'
    | .error halt l' => (.error halt, l'.left) :: trace calls l'

variable {o : ReaderOptions} {ends : Bool} {s : Sending} {rest : Bytes} {l : Link}

theorem undelivered_ofChunks (chunks : List Bytes) (ends : Bool) :
    (Script.ofChunks chunks ends).undelivered = chunks.flatten := by
  unfold Script.undelivered Script.ofChunks
  induction chunks with
  | nil => rfl
  | cons c chunks ih => simpa using ih

theorem Holds.left_eq (h : l.Holds o ends s rest) : l.left = rest := by
  obtain ⟨ahead, chunks, hf, -, rfl⟩ := h
  simp only [left, hf.unread, hf.inbound, Inbound.undelivered, undelivered_ofChunks]

theorem mapError_onBytes_line {maxLine : Nat} (hm : maxLine + 1 ≤ maxWord64) (left : Bytes) :
    (Call.line.onBytes maxLine left).1.mapError .failed
        = (Plain.line maxLine (maxLine + 2) true left).1.map (.line <| ·.map latin1) ∧
      (Call.line.onBytes maxLine left).2 = (Plain.line maxLine (maxLine + 2) true left).2 := by
  simp only [Call.onBytes, Plain.line, Plain.lineAfter, List.nil_append, List.length_nil,
    Nat.zero_add, Nat.add_le_add_iff_right, lineFault_of_le hm]
  cases cutAt crlf left with
  | none =>
    by_cases hl : left.length < maxLine + 2
    · simp only [hl, if_true]
      exact ⟨rfl, trivial⟩
    · simp only [hl, if_false]
      exact ⟨rfl, trivial⟩
  | some cut =>
    by_cases hl : cut.1.length ≤ maxLine
    · simp only [hl, if_true]
      exact ⟨rfl, trivial⟩
    · simp only [hl, if_false]
      exact ⟨rfl, trivial⟩

theorem mapError_onBytes_bytes (maxLine count : Nat) (left : Bytes) :
    ((Call.bytes count).onBytes maxLine left).1.mapError .failed
        = (Plain.bytes count true left).1.map .bytes ∧
      ((Call.bytes count).onBytes maxLine left).2 = (Plain.bytes count true left).2 := by
  by_cases hc : count ≤ left.length
  · simp only [Call.onBytes, Plain.bytes, hc, if_true]
    exact ⟨rfl, trivial⟩
  · -- too few bytes are all consumed
    have hd : left.drop count = [] := List.drop_eq_nil_of_le (by omega)
    simp only [Call.onBytes, Plain.bytes, hc, hd, if_false]
    exact ⟨rfl, trivial⟩

/-- **One call on a link** comes to what the rule says of the bytes it has not consumed. -/
theorem onLink_holds (hm : o.maxLine + 1 ≤ maxWord64) (call : Call)
    (h : l.Holds o true s rest) :
    ∃ l', call.onLink l
        = Act.settle ((call.onBytes o.maxLine rest).1.mapError .failed) l' ∧
      l'.Holds o true s (call.onBytes o.maxLine rest).2 := by
  cases call with
  | line =>
    obtain ⟨l', he, hl'⟩ := readLine_holds h
    obtain ⟨hanswer, hleft⟩ := mapError_onBytes_line hm rest
    rw [ReaderOptions.window_eq hm] at he hl'
    rw [hanswer, hleft]
    exact ⟨l', Act.settle_map _ he, hl'⟩
  | bytes count =>
    obtain ⟨l', he, hl'⟩ := readBytes_holds count h
    obtain ⟨hanswer, hleft⟩ := mapError_onBytes_bytes o.maxLine count rest
    rw [hanswer, hleft]
    exact ⟨l', Act.settle_map _ he, hl'⟩

theorem trace_holds (hm : o.maxLine + 1 ≤ maxWord64) (calls : List Call)
    (h : l.Holds o true s rest) : l.trace calls = Plain.trace o.maxLine calls rest := by
  -- on the calls; each leaves a link that holds what the rule leaves
  induction calls generalizing l rest with
  | nil => rfl
  | cons call calls ih =>
    obtain ⟨l', he, hl'⟩ := onLink_holds hm call h
    simp only [trace, Plain.trace, he]
    cases hb : call.onBytes o.maxLine rest with
    | mk answer after =>
      rw [hb] at hl'
      have hmore := ih hl'
      cases answer with
      | ok answer =>
        show (_, l'.left) :: trace calls l' = _
        rw [hl'.left_eq, hmore]
        rfl
      | error cause =>
        show (_, l'.left) :: trace calls l' = _
        rw [hl'.left_eq, hmore]
        rfl

/-- **Calls on a link are calls on the byte string** its stream delivers. -/
theorem trace_eq_plain (o : ReaderOptions) (hm : o.maxLine + 1 ≤ maxWord64) (chunks : List Bytes)
    (hs : Steady o.retries true chunks) (calls : List Call) :
    (reading o chunks).trace calls = Plain.trace o.maxLine calls chunks.flatten :=
  trace_holds hm calls (reading_holds hs)

/-- A line end cut in two, a body, and bytes that end in the middle of a line. -/
theorem trace_eq_plain_straddled :
    Steady 1 true [ascii "ab\r", [], ascii "\ncde\rf"] ∧
    (reading { bufferSize := 0, retries := 1, maxLine := 4 }
        [ascii "ab\r", [], ascii "\ncde\rf"]).trace [.line, .bytes 3, .line, .bytes 1]
      = [(.ok (.line (some "ab")), ascii "cde\rf"), (.ok (.bytes (ascii "cde")), ascii "\rf"),
          (.ok (.line none), []), (.error (.failed (.bodyCutShort 0 1)), [])] := by
  have hs : Steady 1 true [ascii "ab\r", [], ascii "\ncde\rf"] := by decide
  refine ⟨hs, (trace_eq_plain _ (by decide) _ hs _).trans ?_⟩
  rfl

end Link

end HttpEngine
