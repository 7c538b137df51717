import HttpEngine.Proofs.Message.Reply
import HttpEngine.Proofs.Serving.Order
import HttpEngine.Proofs.Transport.Fitting

/-!
# Responses that wait for their flush

A response is written into the buffer of a link, and sent by one flush at its end. One that **fits
into the buffer** is not on the stream before that; of one that does not, as much is on the stream
as the buffer cannot hold.

* `Response.write`: all of sending a response but the flush at its end.
* `Response.journal_write_of_fits`: a response that fits.
* `Response.write_spills`: any response.
* `Response.deliver_holds_back`: both, for a response that is to be sent.
-/

namespace HttpEngine

open Text

/-- What halts an activity, if anything does. -/
def Act.halt? {ε σ α : Type} (act : EStateM ε σ α) (s : σ) : Option ε :=
  match act s with
  | .ok _ _ => none
  | .error halt _ => some halt

theorem Act.error_of_halt? {ε σ α : Type} {act : EStateM ε σ α} {s : σ} {halt : ε}
    (h : halt? act s = some halt) : ∃ s', act s = .error halt s' := by
  unfold halt? at h
  cases hs : act s with
  | ok a s' =>
    rw [hs] at h
    cases h
  | error e s' =>
    rw [hs] at h
    cases h
    exact ⟨s', rfl⟩

/-- Write head and body, **short of the flush that sends them**. -/
def Response.write (r : Response) (cookies : Option CookieStore) : Link.Act Unit := do
  Link.writeAll (utf8 (r.head cookies))
  r.body.writeTo

/-- All the bytes of a response, as far as its body has them. -/
def Response.whole (r : Response) (cookies : Option CookieStore) : Bytes :=
  utf8 (r.head cookies) ++ r.body.contents.1

/-- A response fits into a buffer: its head **with room to spare**, and its body after it. -/
structure Response.Fits (r : Response) (cookies : Option CookieStore) (capacity : Nat) : Prop where
  head : (utf8 (r.head cookies)).length < capacity
  whole : (r.whole cookies).length ≤ capacity

/-- A body that fits is written **past the eyes of the stream**. -/
theorem Body.journal_writeTo_of_fits (b : Body) {l : Link} (h : l.Fits b.contents.1.length) :
    (Act.leaves b.writeTo l).wire.journal = l.wire.journal := by
  cases b with
  | empty => rfl
  | bytes data =>
    have he : (Body.bytes data).writeTo l = Link.hold data l := Link.writeAll_of_fits h
    rw [Act.leaves, he]
    exact Link.journal_hold data l
  | reader source => exact Link.copyFrom_of_fits false { source := source } rfl h

theorem Body.writeTo_snug (b : Body) : Act.Keeps Link.Snug b.writeTo := by
  cases b with
  | empty => exact Link.Snug.refl
  | bytes data => exact Link.writeAll_snug data
  | reader source => exact Link.copyFrom_snug false { source := source }

namespace Response

variable {r : Response} {cookies : Option CookieStore} {l l' : Link} {halt : Halt IoError}

/-- A response is sent by writing it **and then flushing**. -/
theorem deliver_eq (r : Response) (cookies : Option CookieStore) :
    r.deliver cookies = r.write cookies >>= fun _ => Link.send := by
  funext l
  simp only [deliver, write, Act.run_bind]
  cases Link.writeAll (utf8 (r.head cookies)) l <;> rfl

theorem deliver_of_unwritten (h : r.write cookies l = .error halt l') :
    r.deliver cookies l = .error halt l' := by
  rw [deliver_eq, Act.run_bind, h]

theorem length_head_pos (r : Response) (cookies : Option CookieStore) :
    0 < (utf8 (r.head cookies)).length := by
  -- the empty line is there, whatever comes before it
  rw [head, utf8_append, List.length_append, utf8_crlf]
  exact Nat.lt_of_lt_of_le (by decide : 0 < crlf.length) (Nat.le_add_left _ _)

/-- A response that fits **stays in the buffer**, be it that writing it fails. -/
theorem journal_write_of_fits (hheld : l.held = []) (h : r.Fits cookies l.capacity) :
    (Act.leaves (r.write cookies) l).wire.journal = l.wire.journal := by
  have hwhole := h.whole
  rw [whole, List.length_append] at hwhole
  have hfits : l.Fits (utf8 (r.head cookies)).length :=
    ⟨by rw [hheld, List.length_nil, Nat.zero_add]; exact Nat.le_of_lt h.head, h.head⟩
  have hhead := Link.journal_hold (utf8 (r.head cookies)) l
  have he := Link.writeAll_of_fits hfits
  unfold write
  cases hw : Link.hold (utf8 (r.head cookies)) l with
  | error halt l₁ =>
    rw [Act.leaves_of_error hw] at hhead
    rw [hw] at he
    simpa only [Act.leaves, Act.run_bind, he] using hhead
  | ok u l₁ =>
    rw [Act.leaves_of_ok hw] at hhead
    rw [Act.leaves_bind_of_ok (he.trans hw), ← hhead]
    -- the head is not empty, so that the body is smaller than the buffer
    have hpos := r.length_head_pos cookies
    refine r.body.journal_writeTo_of_fits (Link.fits_of_hold ?_ (by omega) hw)
    rw [hheld, List.length_nil, Nat.zero_add]
    exact h.whole

/-- Of what was written of any response, as much is on the stream **as the buffer cannot hold**. -/
theorem write_spills (r : Response) (cookies : Option CookieStore) (hheld : l.held = []) :
    ∃ gone, (Act.leaves (r.write cookies) l).wire.journal.sent = l.wire.journal.sent ++ gone ∧
      gone ++ (Act.leaves (r.write cookies) l).held <+: r.whole cookies ∧
      (Act.leaves (r.write cookies) l).held.length ≤ l.capacity ∧
      ∀ l', r.write cookies l = .ok () l' → gone ++ l'.held = r.whole cookies := by
  have hwrites : Link.Writes (r.whole cookies) (fun _ => []) (r.write cookies) l :=
    ((Link.writeAll_writes _ l).before _).bind fun _ l₁ _ => r.body.writeTo_writes l₁
  have hsnug : Link.Snug l (Act.leaves (r.write cookies) l) :=
    Link.keeps_snug_bind (Link.writeAll_snug _) (fun _ => r.body.writeTo_snug) l
  obtain ⟨front, hpassed, hfront, hall⟩ := hwrites
  obtain ⟨added, hadded, -⟩ := hpassed.grows
  have hwritten := hpassed.written
  -- what was on the stream before is the same on both sides
  have hsplit : Journal.sent added ++ (Act.leaves (r.write cookies) l).held = front := by
    simp only [Link.written, hadded, Journal.sent_append, hheld, List.append_nil,
      List.append_assoc] at hwritten
    exact List.append_cancel_left hwritten
  refine ⟨Journal.sent added, by rw [hadded, Journal.sent_append], hsplit ▸ hfront, ?_, ?_⟩
  · rw [← hsnug.1]
    exact hsnug.2 (by rw [hheld]; exact Nat.zero_le _)
  · intro l' h
    have hfull := hall () l' h
    rw [List.append_nil] at hfull
    rw [Act.leaves_of_ok h] at hsplit
    exact hsplit.trans hfull

/-- A head larger than the buffer is on the stream **though its body is refused**. -/
example :
    (Act.leaves ((ok (.bytes (ascii "hi"))).write none) { capacity := 16, writeLeft := some 39 }
        ).wire.journal.sent = ascii "HTTP/1.1 200 OK\r\nContent-Length: 2\r\n\r\n" := by
  decide +kernel

/-- **Before the flush at its end a response that fits into the buffer leaves no trace**, so that one
which cannot be written to its end never does. Of any other response, as much is on the stream by
then as the buffer cannot hold. -/
theorem deliver_holds_back (r : Response) (cookies : Option CookieStore) (l : Link)
    (hheld : l.held = []) :
    (r.Fits cookies l.capacity →
      (Act.leaves (r.write cookies) l).wire.journal = l.wire.journal ∧
      (∀ halt l', r.write cookies l = .error halt l' →
        r.deliver cookies l = .error halt l' ∧ l'.wire.journal = l.wire.journal) ∧
      ∀ l', r.write cookies l = .ok () l' → r.deliver cookies l = Link.send l') ∧
    ∃ gone, (Act.leaves (r.write cookies) l).wire.journal.sent = l.wire.journal.sent ++ gone ∧
      gone ++ (Act.leaves (r.write cookies) l).held <+: r.whole cookies ∧
      (Act.leaves (r.write cookies) l).held.length ≤ l.capacity ∧
      ∀ l', r.write cookies l = .ok () l' → gone ++ l'.held = r.whole cookies := by
  refine ⟨fun hfits => ?_, r.write_spills cookies hheld⟩
  have hquiet := journal_write_of_fits hheld hfits
  refine ⟨hquiet, fun halt l' h => ⟨deliver_of_unwritten h, ?_⟩, fun l' h => ?_⟩
  · rw [Act.leaves_of_error h] at hquiet
    exact hquiet
  · rw [deliver_eq, Act.run_bind, h]

/-- A link that may write a head and one byte more. -/
def oneByteMore : Link := { capacity := 64, writeLeft := some 39 }

/-- A body of two bytes is refused, **and nothing of the head was sent**. -/
theorem deliver_holds_back_refused :
    oneByteMore.held = [] ∧ (ok (.bytes (ascii "hi"))).Fits none oneByteMore.capacity ∧
    ∃ l', (ok (.bytes (ascii "hi"))).deliver none oneByteMore
        = .error (.failed (.overBudget .write)) l' ∧ l'.wire.journal = [] := by
  have hfits : (ok (.bytes (ascii "hi"))).Fits none oneByteMore.capacity :=
    ⟨by decide +kernel, by decide +kernel⟩
  have hrefused : Act.halt? ((ok (.bytes (ascii "hi"))).write none) oneByteMore
      = some (.failed (.overBudget .write)) := by
    decide +kernel
  obtain ⟨l', hw⟩ := Act.error_of_halt? hrefused
  obtain ⟨-, hnone, -⟩ := (deliver_holds_back (ok (.bytes (ascii "hi"))) none oneByteMore rfl).1
    hfits
  exact ⟨rfl, hfits, l', hnone _ l' hw⟩

end Response

end HttpEngine
