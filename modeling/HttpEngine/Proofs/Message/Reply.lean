import HttpEngine.Message.Reception
import HttpEngine.Proofs.Message.Delivery
import HttpEngine.Proofs.Message.Fields
import HttpEngine.Proofs.Text.Integer
import HttpEngine.Proofs.Text.Latin1
import HttpEngine.Proofs.Text.Utf8

/-!
# Responses read back

A client that reads lines, and as many bytes of a body as the first `Content-Length` says, gets back
**what was built**, response after response, with nothing left over.

* `Reply`: a response as a client sees it, and `Reply.read`, how it comes to see it.
* `Outgoing`: the steps a response is built in, with the cookies that go with it.
* `Outgoing.Sound`: what must not stand in a response that is to be read back.
* `Outgoing.read_wire`: one response, in front of anything.
* `Outgoing.readAll_sendAll`: responses sent one after another.
-/

namespace HttpEngine

open Text

/-! ### How a client reads -/

/-- A response as a client sees it. -/
structure Reply where
  code : Nat
  reason : String
  headers : List (String × String)
  body : Bytes
  deriving DecidableEq, Repr

namespace Reply

/-- The bytes up to the first carriage return and line feed, **read as UTF-8**, and those after. -/
def line? (bytes : Bytes) : Option (String × Bytes) :=
  match cutAt crlf bytes with
  | none => none
  | some (line, rest) => (Utf8.decode? line).map fun text => (text, rest)

/-- The number and the reason on a status line. -/
def status? (line : String) : Option (Nat × String) := do
  let (version, rest) ← cut ' ' line.toList
  let (code, reason) ← cut ' ' rest
  let number ← digits? code
  if String.ofList version = "HTTP/1.1" then return (number, String.ofList reason) else none

variable {bytes rest : Bytes} {text : String}

theorem length_of_line? (h : line? bytes = some (text, rest)) : rest.length < bytes.length := by
  unfold line? at h
  cases hc : cutAt crlf bytes with
  | none =>
    rw [hc] at h
    cases h
  | some parts =>
    obtain ⟨line, rest'⟩ := parts
    rw [hc] at h
    obtain ⟨text', -, he⟩ := Option.map_eq_some_iff.1 h
    cases he
    obtain ⟨rfl, -⟩ := (cutAt_pair_eq_some_iff (by decide)).1 hc
    simp only [List.length_append, List.length_cons]
    omega

/-- Header lines up to the empty one, each cut **at its first colon and space**. -/
def headersFrom (bytes : Bytes) : Option (List (String × String) × Bytes) :=
  match _h : line? bytes with
  | none => none
  | some (text, rest) =>
    if text = "" then some ([], rest)
    else
      match headerLine? text.toList with
      | none => none
      | some entry => (headersFrom rest).map fun (entries, left) => (entry :: entries, left)
termination_by bytes.length
decreasing_by exact length_of_line? _h

/-- The length that the first `Content-Length` says, none being none. -/
def length? (headers : List (String × String)) : Option Nat :=
  match Named.find? "content-length" headers with
  | none => some 0
  | some value => digits? value.toList

/-- One response off the front of bytes. -/
def read (bytes : Bytes) : Option (Reply × Bytes) :=
  match line? bytes with
  | none => none
  | some (line, rest) => do
    let (code, reason) ← status? line
    let (headers, rest) ← headersFrom rest
    let length ← length? headers
    if length ≤ rest.length then
      return ({ code, reason, headers, body := rest.take length }, rest.drop length)
    else none

theorem length_of_headersFrom {entries : List (String × String)}
    (h : headersFrom bytes = some (entries, rest)) : rest.length < bytes.length := by
  fun_induction headersFrom bytes generalizing entries with
  | case1 => cases h
  | case2 bytes rest' hl =>
    cases h
    exact length_of_line? hl
  | case3 => cases h
  | case4 bytes text rest' hl htext entry hentry ih =>
    obtain ⟨⟨entries', left⟩, hmore, he⟩ := Option.map_eq_some_iff.1 h
    cases he
    exact Nat.lt_trans (ih hmore) (length_of_line? hl)

/-- A response that is read **takes bytes away**. -/
theorem length_of_read {reply : Reply} (h : read bytes = some (reply, rest)) :
    rest.length < bytes.length := by
  unfold read at h
  cases hl : line? bytes with
  | none =>
    rw [hl] at h
    cases h
  | some parts =>
    obtain ⟨line, behind⟩ := parts
    rw [hl] at h
    obtain ⟨⟨code, reason⟩, -, h⟩ := Option.bind_eq_some_iff.1 h
    obtain ⟨⟨headers, left⟩, hh, h⟩ := Option.bind_eq_some_iff.1 h
    obtain ⟨length, -, h⟩ := Option.bind_eq_some_iff.1 h
    have h₁ := length_of_line? hl
    have h₂ := length_of_headersFrom hh
    split at h
    · cases h
      rw [List.length_drop]
      omega
    · cases h

/-- Responses **until no bytes are left**. -/
def readAll (bytes : Bytes) : Option (List Reply) :=
  if bytes = [] then some []
  else
    match _h : read bytes with
    | none => none
    | some (reply, rest) => (readAll rest).map (reply :: ·)
termination_by bytes.length
decreasing_by exact length_of_read _h

end Reply

/-! ### Lines -/

namespace Text

variable {s t : String}

/-- A text **in which no line ends**. -/
def Unbroken (s : String) : Prop := ¬ ['\r', '\n'] <:+: s.toList

instance (s : String) : Decidable (Unbroken s) :=
  inferInstanceAs (Decidable (¬ ['\r', '\n'] <:+: s.toList))

theorem Unbroken.join (hs : Unbroken s) (ht : Unbroken t) (sep : Char) (hr : sep ≠ '\r')
    (hn : sep ≠ '\n') : Unbroken (s ++ sep.toString ++ t) := by
  intro h
  have he : (s ++ sep.toString ++ t).toList = s.toList ++ sep :: t.toList := by simp
  rw [he] at h
  rcases pair_infix_of_separated hr hn h with h | h
  · exact hs h
  · exact ht h

theorem unbroken_empty : Unbroken "" := by decide

theorem Unbroken.join_colon (hs : Unbroken s) (ht : Unbroken t) : Unbroken (s ++ ": " ++ t) := by
  -- the colon is one separator and the space after it another
  have h := (hs.join unbroken_empty ':' (by decide) (by decide)).join ht ' ' (by decide) (by decide)
  have he : s ++ ": " ++ t = s ++ ':'.toString ++ "" ++ ' '.toString ++ t := by
    rw [← String.toList_inj]
    simp
  rwa [he]

theorem utf8_append (s t : String) : utf8 (s ++ t) = utf8 s ++ utf8 t := by
  simp only [utf8, String.toList_append, List.flatMap_append]

theorem utf8_crlf : utf8 "\r\n" = crlf := by decide

end Text

namespace Reply

variable {text name value : String} {rest : Bytes}

/-- A line is read back **in front of anything**. -/
theorem line?_of_unbroken (h : Unbroken text) (rest : Bytes) :
    line? (utf8 text ++ crlf ++ rest) = some (text, rest) := by
  have hcut : cutAt crlf (utf8 text ++ crlf ++ rest) = some (utf8 text, rest) := by
    refine (cutAt_pair_eq_some_iff (by decide)).2 ⟨?_, fun hi => h (crlf_infix_of_utf8 hi)⟩
    rw [List.append_assoc]
    rfl
  simp only [line?, hcut, Utf8.decode?_utf8, Option.map_some]

theorem headerLine?_of_uncut (h : ¬ [':', ' '] <:+: name.toList) :
    headerLine? (name ++ ": " ++ value).toList = some (name, value) := by
  have hcut : cutAt [':', ' '] (name ++ ": " ++ value).toList = some (name.toList, value.toList) := by
    refine (cutAt_pair_eq_some_iff (by decide)).2 ⟨?_, h⟩
    simp
  simp only [headerLine?, hcut, Option.map_some, String.ofList_toList]

theorem headersFrom_eq (bytes : Bytes) :
    headersFrom bytes = match line? bytes with
      | none => none
      | some (text, rest) =>
        if text = "" then some ([], rest)
        else
          match headerLine? text.toList with
          | none => none
          | some entry => (headersFrom rest).map fun (entries, left) => (entry :: entries, left) := by
  rw [headersFrom]
  split <;> rename_i h <;> rw [h]

/-- A header that **can be read back** from a line of its own. -/
structure Legible (e : String × String) : Prop where
  name : Unbroken e.1
  value : Unbroken e.2
  uncut : ¬ [':', ' '] <:+: e.1.toList

/-- **Header lines are read back**, up to the empty line after them. -/
theorem headersFrom_lines {entries : List (String × String)} (h : ∀ e ∈ entries, Legible e)
    (rest : Bytes) :
    headersFrom (utf8 (String.join (entries.map Response.headerLine)) ++ crlf ++ rest)
      = some (entries, rest) := by
  induction entries with
  | nil =>
    have hl : line? (utf8 (String.join (List.map Response.headerLine [])) ++ crlf ++ rest)
        = some ("", rest) := line?_of_unbroken unbroken_empty rest
    rw [headersFrom_eq, hl]
    rfl
  | cons e entries ih =>
    have he := h e List.mem_cons_self
    have hl := line?_of_unbroken (he.name.join_colon he.value)
      (utf8 (String.join (entries.map Response.headerLine)) ++ crlf ++ rest)
    have hsplit : utf8 (String.join ((e :: entries).map Response.headerLine)) ++ crlf ++ rest
        = utf8 (e.1 ++ ": " ++ e.2) ++ crlf
          ++ (utf8 (String.join (entries.map Response.headerLine)) ++ crlf ++ rest) := by
      simp only [List.map_cons, String.join_cons, Response.headerLine, utf8_append, utf8_crlf,
        List.append_assoc]
    have hne : e.1 ++ ": " ++ e.2 ≠ "" := by
      intro hempty
      have := congrArg String.toList hempty
      simp at this
    rw [hsplit, headersFrom_eq, hl]
    simp only [hne, if_false, headerLine?_of_uncut he.uncut,
      ih fun e' he' => h e' (List.mem_cons_of_mem _ he'), Option.map_some]

theorem length?_of_find? {headers : List (String × String)} {n : Nat}
    (h : Named.find? "content-length" headers = some (toString n)) : length? headers = some n := by
  rw [length?, h]
  simp only
  rw [Nat.toString_eq_ofList_toDigits, String.toList_ofList, digits?_toDigits]

theorem status?_of_status (s : Status) :
    Unbroken ("HTTP/1.1 " ++ s.text) ∧
      status? ("HTTP/1.1 " ++ s.text) = some (s.code, s.reason) := by
  cases s <;> decide +kernel

/-- Lines and a body **whose length they announce** are read back, in front of anything. -/
theorem read_of_lines {status : Status} {headers : List (String × String)} {body : Bytes}
    (h : ∀ e ∈ headers, Legible e) (hlength : length? headers = some body.length) (rest : Bytes) :
    read (utf8 ("HTTP/1.1 " ++ status.text) ++ crlf
        ++ (utf8 (String.join (headers.map Response.headerLine)) ++ crlf ++ (body ++ rest)))
      = some ({ code := status.code, reason := status.reason, headers, body }, rest) := by
  obtain ⟨hunbroken, hstatus⟩ := status?_of_status status
  have hline := line?_of_unbroken hunbroken
    (utf8 (String.join (headers.map Response.headerLine)) ++ crlf ++ (body ++ rest))
  have hheaders := headersFrom_lines h (body ++ rest)
  have hfits : body.length ≤ (body ++ rest).length := by
    rw [List.length_append]
    omega
  rw [read, hline]
  simp only [hstatus, hheaders, hlength, Option.bind_eq_bind, Option.bind_some, hfits, if_true,
    List.take_left, List.drop_left]
  rfl

end Reply

/-! ### What is built -/

/-- The header that a step of building gives. -/
def Response.Step.header? : Response.Step → Option (String × String)
  | .header name value => some (name, value)
  | _ => none

/-- The body that a step of building gives. -/
def Response.Step.body? : Response.Step → Option Body
  | .body b => some b
  | _ => none

/-- A response to be built and sent, and the cookies that go with it. -/
structure Outgoing where
  status : Status
  steps : List Response.Step
  cookies? : Option CookieStore := none

namespace Outgoing

/-- The headers given, in their order. -/
def headers (o : Outgoing) : List (String × String) := o.steps.filterMap (·.header?)

/-- The body **given last**, if any was. -/
def body (o : Outgoing) : Body := (o.steps.filterMap (·.body?)).getLast?.getD .empty

/-- The cookies written back, **if the store was touched**, each as a header. -/
def setCookies (o : Outgoing) : List (String × String) :=
  match o.cookies? with
  | none => []
  | some store =>
    if store.touched then store.entries.map fun e => ("Set-Cookie", e.1 ++ "=" ++ e.2) else []

/-- What a client is to see. -/
def reply (o : Outgoing) : Reply where
  code := o.status.code
  reason := o.status.reason
  headers := o.headers ++ [("Content-Length", toString o.body.contents.1.length)] ++ o.setCookies
  body := o.body.contents.1

/-- The response, built. -/
def response (o : Outgoing) : Response := Response.build o.status o.steps

/-- The bytes of the response on a stream. -/
def wire (o : Outgoing) : Bytes := utf8 (o.response.head o.cookies?) ++ o.body.contents.1

/-- Responses sent on a link, **one after another**. -/
def sendAll : List Outgoing → Link.Act Unit
  | [] => return ()
  | o :: os => do
    o.response.deliver o.cookies?
    sendAll os

/-- A response that can be read back: its body is known, **its length is not given**, and nothing in
it ends a line or cuts one in another place. -/
structure Sound (o : Outgoing) : Prop where
  known : ∀ source, o.body ≠ .reader source
  headers : ∀ e ∈ o.headers, Reply.Legible e
  unannounced : ∀ e ∈ o.headers, sameName e.1 "content-length" = false
  cookies : ∀ store ∈ o.cookies?, ∀ e ∈ store.entries, Unbroken e.1 ∧ Unbroken e.2

variable {o : Outgoing} {os : List Outgoing}

/-! ### What building comes to -/

theorem foldl_take (steps : List Response.Step) (r : Response) :
    (steps.foldl Response.take r).status = r.status ∧
    (steps.foldl Response.take r).headers.entries
      = r.headers.entries ++ steps.filterMap (·.header?) ∧
    (steps.foldl Response.take r).body = (steps.filterMap (·.body?)).getLast?.getD r.body := by
  induction steps generalizing r with
  | nil => simp
  | cons step steps ih =>
    obtain ⟨hstatus, hheaders, hbody⟩ := ih (r.take step)
    rw [List.foldl_cons]
    refine ⟨hstatus.trans ?_, hheaders.trans ?_, hbody.trans ?_⟩
    · cases step <;> rfl
    · cases step with
      | header name value => exact List.append_assoc ..
      | body b => rfl
      | close b => rfl
    · cases step with
      | header name value => rfl
      | body b =>
        show _ = (b :: steps.filterMap (·.body?)).getLast?.getD r.body
        rw [List.getLast?_cons]
        rfl
      | close b => rfl

/-- Where no header is under a name, **the first one under it** comes later. -/
theorem find?_of_absent {name : String} {es : List (String × String)}
    (h : ∀ e ∈ es, sameName e.1 name = false) (more : List (String × String)) :
    Named.find? name (es ++ more) = Named.find? name more := by
  induction es with
  | nil => rfl
  | cons e es ih =>
    rw [List.cons_append, Named.find?_cons, h e List.mem_cons_self]
    exact ih fun e' he => h e' (List.mem_cons_of_mem _ he)

theorem length?_of_known (h : ∀ source, o.body ≠ .reader source) :
    o.body.length? = some o.body.contents.1.length := by
  cases hb : o.body with
  | empty => rfl
  | bytes data => rfl
  | reader source => exact absurd hb (h source)

/-- A built response has the headers given and then **one for its length**. -/
theorem response_eq (h : o.Sound) :
    o.response.status = o.status ∧ o.response.body = o.body ∧
      o.response.headers.entries
        = o.headers ++ [("Content-Length", toString o.body.contents.1.length)] := by
  obtain ⟨hstatus, hheaders, hbody⟩ := foldl_take o.steps { status := o.status, headers := {} }
  have hentries : (o.steps.foldl Response.take { status := o.status, headers := {} }).headers.entries
      = o.headers := hheaders
  have hlast : (o.steps.foldl Response.take { status := o.status, headers := {} }).body = o.body :=
    hbody
  have hnone : (o.steps.foldl Response.take { status := o.status, headers := {} }).headers.contains
      "content-length" = false := by
    have := find?_of_absent h.unannounced []
    rw [List.append_nil] at this
    rw [Headers.contains, Headers.get?, hentries, this]
    rfl
  unfold response Response.build Response.make
  simp only [hnone, Bool.false_eq_true, if_false, hlast, length?_of_known h.known]
  refine ⟨hstatus, trivial, ?_⟩
  simp only [Headers.append, hentries]

/-- A cookie line **is a header line**. -/
theorem cookieLines_eq (o : Outgoing) :
    Response.cookieLines o.cookies? = String.join (o.setCookies.map Response.headerLine) := by
  have hline : CookieStore.setLine
      = Response.headerLine ∘ fun e => ("Set-Cookie", e.1 ++ "=" ++ e.2) := by
    have hname : "Set-Cookie: " = "Set-Cookie" ++ ": " := by decide
    funext e
    show "Set-Cookie: " ++ e.1 ++ "=" ++ e.2 ++ "\r\n"
      = "Set-Cookie" ++ ": " ++ (e.1 ++ "=" ++ e.2) ++ "\r\n"
    rw [← hname]
    simp only [String.append_assoc]
  unfold Response.cookieLines setCookies
  cases o.cookies? with
  | none => rfl
  | some store =>
    by_cases htouched : store.touched = true
    · simp only [htouched, if_true, CookieStore.cookieData, List.map_map, hline]
    · simp only [htouched]
      rfl

/-! ### Reading it back -/

theorem unbroken_toString (n : Nat) : Unbroken (toString n) := (inline_toString n).unbroken

/-- Cookies in which no line ends are headers that **can be read back**. -/
theorem legible_setCookies (h : ∀ store ∈ o.cookies?, store.touched = true →
    ∀ e ∈ store.entries, Unbroken e.1 ∧ Unbroken e.2) : ∀ e ∈ o.setCookies, Reply.Legible e := by
  intro e he
  unfold setCookies at he
  cases hc : o.cookies? with
  | none =>
    rw [hc] at he
    cases he
  | some store =>
    rw [hc] at he
    by_cases htouched : store.touched = true
    · simp only [htouched, if_true] at he
      obtain ⟨cookie, hcookie, rfl⟩ := List.mem_map.1 he
      obtain ⟨hname, hvalue⟩ := h store hc htouched cookie hcookie
      have hset : Unbroken "Set-Cookie" ∧ ¬ [':', ' '] <:+: "Set-Cookie".toList := by decide
      exact ⟨hset.1, hname.join hvalue '=' (by decide) (by decide), hset.2⟩
    · simp only [htouched] at he
      cases he

/-- **Every header that is sent** can be read back. -/
theorem Sound.legible (h : o.Sound) : ∀ e ∈ o.reply.headers, Reply.Legible e := by
  intro e he
  rcases List.mem_append.1 he with he | he
  · rcases List.mem_append.1 he with he | he
    · exact h.headers e he
    · rw [List.mem_singleton.1 he]
      have hname : Unbroken "Content-Length" ∧ ¬ [':', ' '] <:+: "Content-Length".toList := by
        decide
      exact ⟨hname.1, unbroken_toString _, hname.2⟩
  · exact legible_setCookies (fun store hc _ => h.cookies store hc) e he

/-- Everything before the body: the status line, **and the headers a client is to see**. -/
theorem head_eq (h : o.Sound) :
    utf8 (o.response.head o.cookies?) = utf8 ("HTTP/1.1 " ++ o.status.text) ++ crlf
      ++ (utf8 (String.join (o.reply.headers.map Response.headerLine)) ++ crlf) := by
  obtain ⟨hstatus, -, hentries⟩ := response_eq h
  simp only [Response.head, Response.statusLine, hstatus, hentries, cookieLines_eq, reply,
    List.map_append, String.join_append, utf8_append, utf8_crlf, List.append_assoc]

/-- The first length that is announced **is that of the body**. -/
theorem length?_of_sound (h : o.Sound) :
    Reply.length? o.reply.headers = some o.body.contents.1.length := by
  have hfind : Named.find? "content-length" o.reply.headers
      = some (toString o.body.contents.1.length) := by
    unfold reply
    simp only
    rw [List.append_assoc, find?_of_absent h.unannounced, List.singleton_append,
      Named.find?_cons]
    have hsame : sameName "Content-Length" "content-length" = true := by decide
    simp only [hsame, if_true]
  exact Reply.length?_of_find? hfind

/-- **A response is read back**, in front of anything. -/
theorem read_wire (h : o.Sound) (rest : Bytes) :
    Reply.read (o.wire ++ rest) = some (o.reply, rest) := by
  have hwire : o.wire ++ rest = utf8 ("HTTP/1.1 " ++ o.status.text) ++ crlf
      ++ (utf8 (String.join (o.reply.headers.map Response.headerLine)) ++ crlf
        ++ (o.body.contents.1 ++ rest)) := by
    rw [wire, head_eq h]
    simp only [List.append_assoc]
  rw [hwire]
  exact Reply.read_of_lines h.legible (length?_of_sound h) rest

theorem wire_ne_nil (h : o.Sound) : o.wire ≠ [] := by
  intro hnil
  rw [wire, head_eq h] at hnil
  -- there is an end of line in it
  have hhead := (List.append_eq_nil_iff.1 hnil).1
  have hline := (List.append_eq_nil_iff.1 hhead).1
  exact absurd (List.append_eq_nil_iff.1 hline).2 (by decide)

/-- Responses one after another are **read back to the last byte**. -/
theorem readAll_wire (h : ∀ o ∈ os, o.Sound) :
    Reply.readAll (os.flatMap wire) = some (os.map reply) := by
  -- on the responses; each is read in front of those after it
  induction os with
  | nil => rw [List.flatMap_nil, Reply.readAll, if_pos rfl, List.map_nil]
  | cons o os ih =>
    have ho := h o List.mem_cons_self
    have hread := read_wire ho (os.flatMap wire)
    have hne : o.wire ++ os.flatMap wire ≠ [] := by
      intro hnil
      exact wire_ne_nil ho (List.append_eq_nil_iff.1 hnil).1
    rw [List.flatMap_cons, Reply.readAll, if_neg hne]
    split
    · rename_i hnone
      rw [hread] at hnone
      cases hnone
    · rename_i hsome
      rw [hread] at hsome
      cases hsome
      rw [ih fun o' ho' => h o' (List.mem_cons_of_mem _ ho')]
      rfl

/-- Sending responses **puts their bytes on the stream**, whatever the sizes of buffers and writes. -/
theorem sendAll_wrote {l : Link} (h : ∀ o ∈ os, o.Sound) (hl : l.Ready) :
    ∃ l', sendAll os l = .ok () l' ∧ l.Wrote (os.flatMap wire) l' ∧
      (l.held = [] → l'.held = []) := by
  induction os generalizing l with
  | nil => exact ⟨l, rfl, hl.wrote_nil, id⟩
  | cons o os ih =>
    have ho := h o List.mem_cons_self
    obtain ⟨-, hbody, -⟩ := response_eq ho
    have hends : o.response.body.contents.2 = .ended := by
      rw [hbody]
      cases hb : o.body with
      | empty => rfl
      | bytes data => rfl
      | reader source => exact absurd hb (ho.known source)
    obtain ⟨l₁, hdeliver, hwrote, hheld⟩ := o.response.deliver_wrote o.cookies? hl hends
    obtain ⟨l', hsend, hwrote', hheld'⟩ :=
      ih (fun o' ho' => h o' (List.mem_cons_of_mem _ ho')) hwrote.ready
    refine ⟨l', ?_, ?_, fun _ => hheld' hheld⟩
    · rw [sendAll, Act.run_bind, hdeliver]
      exact hsend
    · rw [hbody] at hwrote
      exact hwrote.trans hwrote'

/-- **What is sent is read back.** Responses built in any steps, their bodies known and nothing in
them that ends a line or cuts one in another place, are sent one after another; a client that reads
lines, and as many bytes as the first `Content-Length` says, gets each of them back, in order and
with nothing left over. -/
theorem readAll_sendAll (os : List Outgoing) (h : ∀ o ∈ os, o.Sound) (l : Link) (hl : l.Ready)
    (hheld : l.held = []) :
    ∃ l' bytes, sendAll os l = .ok () l' ∧ l'.held = [] ∧
      l'.wire.journal.sent = l.wire.journal.sent ++ bytes ∧
      Reply.readAll bytes = some (os.map reply) := by
  obtain ⟨l', hsend, hwrote, hheld'⟩ := sendAll_wrote h hl
  refine ⟨l', os.flatMap wire, hsend, hheld' hheld, ?_, readAll_wire h⟩
  have hwritten := hwrote.written
  rwa [Link.written, Link.written, hheld' hheld, hheld, List.append_nil, List.append_nil]
    at hwritten

/-- Two responses, one with ends of lines torn apart in its headers and a whole one in its body, the
other with cookies that were not touched. -/
def torn : List Outgoing :=
  [{ status := .ok,
     steps := [.body (.bytes (ascii "replaced")), .header "X-Tail" "one\r", .header "x-tail" "\ntwo",
       .body (.bytes (ascii "a\r\nb"))],
     cookies? := some { entries := [("id", "1: 2")], touched := true } },
   { status := .noContent, steps := [], cookies? := some { entries := [("id", "3")] } }]

theorem readAll_sendAll_torn :
    let l : Link := { wire := { outbound := .script { maxWrite := some 1 } }, capacity := 3 }
    (∀ o ∈ torn, o.Sound) ∧ l.Ready ∧ ∃ l', sendAll torn l = .ok () l' ∧
      Reply.readAll l'.wire.journal.sent = some
        [{ code := 200, reason := "OK", body := ascii "a\r\nb",
           headers := [("X-Tail", "one\r"), ("x-tail", "\ntwo"), ("Content-Length", "4"),
             ("Set-Cookie", "id=1: 2")] },
         { code := 204, reason := "No Content", body := [], headers := [("Content-Length", "0")] }]
    := by
  intro l
  have hsound : ∀ o ∈ torn, o.Sound := by
    intro o ho
    rcases List.mem_cons.1 ho with rfl | ho
    · refine ⟨?_, ?_, by decide +kernel, ?_⟩
      · intro source he
        cases he
      · intro e he
        have hlegible : ∀ e ∈ [("X-Tail", "one\r"), ("x-tail", "\ntwo")],
            Unbroken e.1 ∧ Unbroken e.2 ∧ ¬ [':', ' '] <:+: e.1.toList := by decide +kernel
        obtain ⟨hname, hvalue, huncut⟩ := hlegible e he
        exact ⟨hname, hvalue, huncut⟩
      · intro store hstore
        cases hstore
        decide +kernel
    · rw [List.mem_singleton.1 ho]
      refine ⟨?_, ?_, by decide +kernel, ?_⟩
      · intro source he
        cases he
      · intro e he
        cases he
      · intro store hstore
        cases hstore
        decide +kernel
  have hl : l.Ready := ⟨⟨rfl, rfl⟩, ⟨by simp, by simp, rfl, by simp⟩, rfl⟩
  obtain ⟨l', bytes, hsend, -, hsent, hread⟩ := readAll_sendAll torn hsound l hl rfl
  refine ⟨hsound, hl, l', hsend, ?_⟩
  rw [hsent]
  exact hread.trans (by decide +kernel)

end Outgoing

end HttpEngine
