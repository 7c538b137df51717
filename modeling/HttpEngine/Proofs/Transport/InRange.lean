import HttpEngine.Proofs.Serving.Sizes
import HttpEngine.Proofs.Transport.Calls
import HttpEngine.Proofs.Transport.CursorCalls
import HttpEngine.Proofs.Transport.Refusal

/-!
# Calls of a reader stay in range

Whatever the sizes that a reader is configured with, whatever its stream does and whatever was
called before, its indices are **in order and inside of its buffer**, and every sum and difference
is a word, but for one. That one is made of a configured number that nothing bounds but the word it
is kept in: the longest line and a byte more. Where it is a word, a line that is short enough is not
refused; where it is not, the first byte of a line makes the sum overflow.

* `Demand`: a call, and what it is made with.
* `Reader.afterAll`: what calls leave.
* `Reader.calls_in_range`: the call after any others.
-/

namespace HttpEngine

open Text

/-- A call of a reader, and what it is made with. -/
structure Demand where
  call : Call
  /-- Whether bytes are **refused at once** when the read budget cannot cover them. -/
  checked : Bool := false
  /-- The read budget that is set before the call, if one is. -/
  budget : Option Budget := none
  deriving DecidableEq, Repr

namespace Demand

/-- The count of bytes **is a word**. -/
def InWords (d : Demand) : Prop :=
  match d.call with
  | .line => True
  | .bytes count => count ≤ maxWord64

/-- What is demanded of a link. -/
def onLink (d : Demand) : Link.Act Answer :=
  match d.call, d.checked with
  | .line, _ => do return .line ((← Link.readLine).map latin1)
  | .bytes count, false => do return .bytes (← Link.readBytes count)
  | .bytes count, true => do return .bytes (← Link.readBody count)

/-- What is demanded of a reader. -/
def onReader (o : Overflow) (d : Demand) : Reader.Act Answer :=
  match d.call, d.checked with
  | .line, _ => do return .line ((← Reader.readLine o).map latin1)
  | .bytes count, false => do return .bytes (← Reader.readBytes o count)
  | .bytes count, true => do return .bytes (← Reader.readBody o count)

end Demand

/-- A link with the read budget that is set, **if one is**. -/
def Link.funded (budget : Option Budget) (l : Link) : Link :=
  { l with readLeft := budget.getD l.readLeft }

/-- What demands leave of a link, **whatever comes of them**. -/
def Link.afterAll (demands : List Demand) (l : Link) : Link :=
  demands.foldl (fun l d => Act.leaves d.onLink (l.funded d.budget)) l

namespace Reader

variable {o : Overflow} {r : Reader} {d : Demand} {demands : List Demand}

/-- A reader with the read budget that is set, **if one is**. -/
def funded (budget : Option Budget) (r : Reader) : Reader := { r with link := r.link.funded budget }

/-- What demands leave of a reader, **whatever comes of them**. -/
def afterAll (o : Overflow) (demands : List Demand) (r : Reader) : Reader :=
  demands.foldl (fun r d => Act.leaves (d.onReader o) (r.funded d.budget)) r

/-! ### One call -/

theorem Follows.map {α β : Type} {x : Act α} {y : Link.Act α} (h : Follows x y r) (f : α → β) :
    Follows (do return f (← x)) (do return f (← y)) r :=
  h.bind fun a _ _ hr' _ => follows_pure hr' (f a)

/-- A call follows its link **unless it is a line that may be as long as a word can say**. -/
theorem onReader_follows (hr : r.Sound) (hd : d.InWords)
    (hfits : d.call = .line → r.link.options.maxLine + 1 ≤ maxWord64) :
    Follows (d.onReader o) d.onLink r := by
  obtain ⟨call, checked, budget⟩ := d
  cases call with
  | line => exact (readLine_follows hr (hfits rfl)).map _
  | bytes count =>
    cases checked with
    | false => exact (readBytes_follows hr hd).map _
    | true => exact (readBody_follows hr hd).map _

/-- A line that may be as long as a word can say **fails after its first byte**, and its link has
no answer. -/
theorem onReader_at_limit {b : UInt8} {l : Link} (hr : r.Sound) (hline : d.call = .line)
    (hmax : r.link.options.maxLine = maxWord64)
    (hbyte : Link.nextByte r.seen = .ok (some b) l) :
    ∃ r', d.onReader o r = .error (limitFault o) r' ∧ r'.seen = l ∧ r'.Sound ∧
      r'.link.options = r.link.options ∧
      d.onLink r.seen = .error .trapped l := by
  obtain ⟨r', hfails, hseen, hr', ho⟩ := readLine_at_limit (o := o) hr hmax hbyte
  obtain ⟨call, checked, budget⟩ := d
  obtain rfl : call = .line := hline
  refine ⟨r', ?_, hseen, hr', ho, ?_⟩
  · exact Act.bind_of_error hfails
  · exact Act.bind_of_error (link_readLine_at_limit hr hmax hbyte)

theorem onReader_starved (hr : r.Sound) (hline : d.call = .line)
    (hnone : ∀ b l, Link.nextByte r.seen ≠ .ok (some b) l) :
    Follows (d.onReader o) d.onLink r := by
  obtain ⟨call, checked, budget⟩ := d
  obtain rfl : call = .line := hline
  exact (readLine_starved_follows hr hnone).map _

/-- A call follows its link, or it is a line that may be as long as a word can say **and of which a
byte comes**. -/
theorem onReader_cases (hr : r.Sound) (hd : d.InWords) :
    Follows (d.onReader o) d.onLink r ∨
      d.call = .line ∧ r.link.options.maxLine = maxWord64 ∧
        ∃ b l, Link.nextByte r.seen = .ok (some b) l := by
  by_cases hfits : r.link.options.maxLine + 1 ≤ maxWord64
  · exact .inl (onReader_follows hr hd fun _ => hfits)
  · have hmax : r.link.options.maxLine = maxWord64 := by
      have hle := hr.words.maxLine_le
      omega
    cases hcall : d.call with
    | bytes count =>
      refine .inl (onReader_follows hr hd fun hline => ?_)
      rw [hcall] at hline
      cases hline
    | line =>
      by_cases hbyte : ∃ b l, Link.nextByte r.seen = .ok (some b) l
      · exact .inr ⟨rfl, hmax, hbyte⟩
      · exact .inl (onReader_starved hr hcall fun b l hb => hbyte ⟨b, l, hb⟩)

/-! ### Any calls -/

/-- A reader is sound, **it is a certain link**, and its options are as they were. -/
structure Stands (options : ReaderOptions) (l : Link) (r : Reader) : Prop where
  sound : r.Sound
  seen_eq : r.seen = l
  options_eq : r.link.options = options

theorem Stands.funded {options : ReaderOptions} {l : Link} (h : Stands options l r)
    (budget : Option Budget) : Stands options (l.funded budget) (r.funded budget) where
  sound := h.sound.relinked rfl
  seen_eq := by rw [← h.seen_eq]; rfl
  options_eq := h.options_eq

theorem Stands.follow {α : Type} {options : ReaderOptions} {l : Link} {x : Act α} {y : Link.Act α}
    (h : Stands options l r) (hfollows : Follows x y r) :
    Stands options (Act.leaves y l) (Act.leaves x r) := by
  obtain ⟨answer, r', hx, hy, hr', ho⟩ := hfollows
  rw [h.seen_eq] at hy
  rw [Act.leaves, Act.leaves, hx, hy]
  cases answer <;> exact ⟨hr', rfl, ho.trans h.options_eq⟩

/-- A call leaves a reader that is **the link that it leaves**, even if it fails. -/
theorem Stands.call {options : ReaderOptions} {l : Link} (h : Stands options l r) (hd : d.InWords) :
    Stands options (Act.leaves d.onLink l) (Act.leaves (d.onReader o) r) := by
  rcases onReader_cases (o := o) h.sound hd with hfollows | ⟨hline, hmax, b, l₁, hbyte⟩
  · exact h.follow hfollows
  · obtain ⟨r', hfails, rfl, hr', ho, hlink⟩ := onReader_at_limit (o := o) h.sound hline hmax hbyte
    rw [h.seen_eq] at hlink
    rw [Act.leaves_of_error hfails, Act.leaves_of_error hlink]
    exact ⟨hr', rfl, ho.trans h.options_eq⟩

theorem Stands.afterAll {options : ReaderOptions} {l : Link} (h : Stands options l r)
    (hdemands : ∀ d ∈ demands, d.InWords) :
    Stands options (l.afterAll demands) (r.afterAll o demands) := by
  induction demands generalizing l r with
  | nil => exact h
  | cons d demands ih =>
    exact ih ((h.funded d.budget).call (hdemands d List.mem_cons_self))
      fun e he => hdemands e (List.mem_cons_of_mem d he)

theorem new_stands {l : Link} (hl : l.options.InWords) : Stands l.options (new l).seen (new l) :=
  ⟨new_sound hl, rfl, rfl⟩

/-- What a line comes to **if it is not refused**: none comes, it is the one in front, or the
stream or the read budget is what stopped it. -/
def Unrefused (line rest : Bytes) (r : Reader) : EStateM.Result Fault Reader Answer → Prop
  | .ok answer r' =>
    answer = .line none ∨ answer = .line (some (latin1 line)) ∧ r'.seen.left = rest
  | .error fault r' =>
    ∃ halt, fault = .halted halt ∧ Interrupted r.link.wire.journal halt r'.link.wire.journal

theorem onReader_unrefused {line rest : Bytes} (hr : r.Sound) (hcall : d.call = .line)
    (hfits : r.link.options.maxLine + 1 ≤ maxWord64) (hfirst : ¬ crlf <:+: line)
    (hle : line.length ≤ r.link.options.maxLine) (hleft : r.seen.left = line ++ crlf ++ rest) :
    Unrefused line rest r (d.onReader o r) := by
  obtain ⟨call, checked, budget⟩ := d
  obtain rfl : call = .line := hcall
  have hspared : Link.Spared line rest r.seen (Link.readLine r.seen) :=
    Link.readLine_spared hfits hfirst hleft hle
  obtain ⟨answer, r', hx, hy, -, -⟩ := readLine_follows (o := o) hr hfits
  rw [hy] at hspared
  have hcall : Demand.onReader o ⟨.line, checked, budget⟩ r
      = (do return .line ((← readLine o).map latin1) : Act Answer) r := rfl
  rw [hcall, Act.run_bind, hx]
  cases answer with
  | error halt => exact ⟨halt, rfl, hspared⟩
  | ok line? =>
    cases line? with
    | none => exact .inl rfl
    | some got =>
      obtain ⟨rfl, hrest⟩ := hspared
      exact .inr ⟨rfl, hrest⟩

theorem Follows.halted {α : Type} {x : Act α} {y : Link.Act α} (h : Follows x y r) {fault : Fault}
    {r' : Reader} (hfails : x r = .error fault r') : ∃ halt, fault = .halted halt := by
  obtain ⟨answer, r₁, hx, -, -, -⟩ := h
  rw [hfails] at hx
  cases answer with
  | ok a => cases hx
  | error halt =>
    cases hx
    exact ⟨halt, rfl⟩

/-- The options that a configuration holds are words. With such options, and **whatever was called
before** and came of it, the indices of a reader are in order and inside of its buffer, and it is the
link that the same calls leave. The next call takes nothing from outside of the buffer. If the
longest line and a byte more are a word, no result of it is too large, it does what it does on that
link, and a line in front that is short enough is not refused. If they are not, the first two still
hold of bodies and of a line of which no byte comes, but of any other line the first byte makes the
sum **overflow**, and the link has no answer. -/
theorem calls_in_range (o : Overflow) {l : Link} (hl : l.options.InWords) {before : List Demand}
    (hbefore : ∀ d ∈ before, d.InWords) {d : Demand} (hd : d.InWords) :
    (∀ text c, Config.ofText? text = some c → c.settings.reader.InWords) ∧
    let r := ((new l).afterAll o before).funded d.budget
    (r.index ≤ r.count ∧ r.count ≤ r.buffer.length ∧
      r.buffer.length = max 1 l.options.bufferSize) ∧
    r.seen = ((new l).seen.afterAll before).funded d.budget ∧
    (∀ r', d.onReader o r ≠ .error .outOfRange r') ∧
    ((l.options.maxLine < maxWord64 ∨ d.call ≠ .line ∨
        ∀ b l', Link.nextByte r.seen ≠ .ok (some b) l') →
      Follows (d.onReader o) d.onLink r ∧ ∀ r', d.onReader o r ≠ .error .overflow r') ∧
    (l.options.maxLine < maxWord64 → d.call = .line → ∀ line rest, ¬ crlf <:+: line →
      line.length ≤ l.options.maxLine → r.seen.left = line ++ crlf ++ rest →
      Unrefused line rest r (d.onReader o r)) ∧
    (l.options.maxLine = maxWord64 → d.call = .line → ∀ b l',
      Link.nextByte r.seen = .ok (some b) l' →
      d.onLink r.seen = .error .trapped l' ∧
        ∃ r', d.onReader o r = .error (limitFault o) r' ∧ r'.seen = l') := by
  refine ⟨fun _ _ => Config.reader_inWords, ?_⟩
  intro r
  have hstands : Stands l.options (((new l).seen.afterAll before).funded d.budget) r :=
    ((new_stands hl).afterAll hbefore).funded d.budget
  have hr := hstands.sound
  have ho := hstands.options_eq
  refine ⟨⟨hr.index_le, hr.count_le, ?_⟩, hstands.seen_eq, ?_, ?_, ?_, ?_⟩
  · rw [hr.length_eq, ho, ReaderOptions.room]
  · intro r' hfails
    rcases onReader_cases (o := o) hr hd with hfollows | ⟨hline, hmax, b, l₁, hbyte⟩
    · obtain ⟨halt, hfault⟩ := hfollows.halted hfails
      cases hfault
    · obtain ⟨r₁, hlimit, -⟩ := onReader_at_limit (o := o) hr hline hmax hbyte
      rw [hfails] at hlimit
      cases o <;> cases hlimit
  · intro hwhen
    have hfollows : Follows (d.onReader o) d.onLink r := by
      rcases onReader_cases (o := o) hr hd with hfollows | ⟨hline, hmax, b, l₁, hbyte⟩
      · exact hfollows
      · rw [ho] at hmax
        rcases hwhen with hlt | hother | hnone
        · omega
        · exact absurd hline hother
        · exact absurd hbyte (hnone b l₁)
    refine ⟨hfollows, fun r' hfails => ?_⟩
    obtain ⟨halt, hfault⟩ := hfollows.halted hfails
    cases hfault
  · intro hlt hcall line rest hfirst hle hleft
    rw [← ho] at hlt hle
    exact onReader_unrefused hr hcall hlt hfirst hle hleft
  · intro hmax hcall b l' hbyte
    obtain ⟨r', hfails, hseen, -, -, hlink⟩ :=
      onReader_at_limit (o := o) hr hcall (ho ▸ hmax) hbyte
    exact ⟨hlink, r', hfails, hseen⟩

/-- A line may be as long as the largest word but one, **but not as the largest**. -/
theorem calls_in_range_longest :
    (ReaderOptions.InWords { maxLine := maxWord64 - 1 } ∧
      ReaderOptions.InWords { maxLine := maxWord64 } ∧ Demand.InWords { call := .line }) ∧
    (∃ r', Demand.onReader .trapped { call := .line }
        (new (.reading { maxLine := maxWord64 - 1 } [ascii "a\r\n"]))
      = .ok (.line (some "a")) r') ∧
    (∃ r', Demand.onReader .trapped { call := .line }
        (new (.reading { maxLine := maxWord64 } [ascii "a\r\n"])) = .error .overflow r') ∧
    ∃ r', Demand.onReader .wrapped { call := .line }
        (new (.reading { maxLine := maxWord64 } [ascii "a\r\n"]))
      = .error (.halted (.failed (.lineTooLong maxWord64))) r' := by
  have hshort : ReaderOptions.InWords { maxLine := maxWord64 - 1 } :=
    ⟨by decide, by decide, by decide⟩
  have hlong : ReaderOptions.InWords { maxLine := maxWord64 } :=
    ⟨by decide, by decide, by decide⟩
  have hsteady : Steady 3 true [ascii "a\r\n"] := steady_of_ne_nil (by decide)
  have hrefused : ∀ o, ∃ r', Demand.onReader o { call := .line }
      (new (.reading { maxLine := maxWord64 } [ascii "a\r\n"])) = .error (limitFault o) r' := by
    intro o
    obtain ⟨l', hbyte, -⟩ := Link.nextByte_holds
      (Link.reading_holds (o := { maxLine := maxWord64 }) hsteady)
    obtain ⟨-, -, -, -, -, -, hlimit⟩ := calls_in_range o
      (l := .reading { maxLine := maxWord64 } [ascii "a\r\n"]) hlong
      (List.forall_mem_nil Demand.InWords) (d := { call := .line }) trivial
    obtain ⟨-, r', hfails, -⟩ := hlimit rfl rfl _ l' hbyte
    exact ⟨r', hfails⟩
  refine ⟨⟨hshort, hlong, trivial⟩, ?_, hrefused .trapped, hrefused .wrapped⟩
  obtain ⟨l', hlink, -⟩ := Link.onLink_holds (by decide) .line
    (Link.reading_holds (o := { maxLine := maxWord64 - 1 }) hsteady)
  obtain ⟨-, -, -, -, hsafe, -⟩ := calls_in_range .trapped
    (l := .reading { maxLine := maxWord64 - 1 } [ascii "a\r\n"]) hshort
    (List.forall_mem_nil Demand.InWords) (d := { call := .line }) trivial
  obtain ⟨⟨answer, r', hx, hy, -⟩, -⟩ := hsafe (.inl (by decide))
  have hline : Act.settle answer r'.seen
      = Act.settle ((Call.line.onBytes (maxWord64 - 1) (ascii "a\r\n")).1.mapError .failed) l' :=
    hy.symm.trans hlink
  have hanswer : (Call.line.onBytes (maxWord64 - 1) (ascii "a\r\n")).1
      = .ok (.line (some "a")) := rfl
  rw [hanswer] at hline
  cases answer with
  | error halt => cases hline
  | ok answer =>
    cases hline
    exact ⟨r', hx⟩

end Reader

end HttpEngine
