import HttpEngine.Proofs.Handling.Compression
import HttpEngine.Proofs.Message.Head

/-!
# Answers without a body

A compressing handler does not look at the body it is given. **What it writes is never empty**, not
even when there is nothing to write, and it goes on the stream under whatever status the answer has.
The length it announces is right, so one who reads by it loses nothing.

* `Compression.chosen?`: the coding that a client gets.
* `Encoder.Undone`: an encoder with a decoder that undoes it, `Encoder.Undone.encode_ne_nil`: with it
  no data in a coding is some bytes.
* `Response.read_head`: a response with its length among its headers, read back.
* `Compression.run_emptied`: what becomes of an answer without a body.
* `Compression.not_kept_empty`: it **does not stay** without one.
-/

namespace HttpEngine

open Text

/-! ### Reading a response back -/

/-- Headers that announce a length go on announcing it **with cookies after them**. -/
theorem Reply.length?_setCookies (headers : List (String × String)) (o : Outgoing) :
    length? (headers ++ o.setCookies) = length? headers := by
  have hnone : Named.find? "content-length" o.setCookies = none := by
    have hset : sameName "Set-Cookie" "content-length" = false := by decide
    have habsent : ∀ e ∈ o.setCookies, sameName e.1 "content-length" = false := by
      intro e he
      unfold Outgoing.setCookies at he
      split at he
      · cases he
      · split at he
        · obtain ⟨cookie, -, rfl⟩ := List.mem_map.1 he
          exact hset
        · cases he
    have := Outgoing.find?_of_absent habsent []
    rwa [List.append_nil] at this
  have hfind : Named.find? "content-length" (headers ++ o.setCookies)
      = Named.find? "content-length" headers := by
    induction headers with
    | nil => exact hnone
    | cons e headers ih => rw [List.cons_append, Named.find?_cons, Named.find?_cons, ih]
  rw [length?, length?, hfind]

namespace Response

variable {r : Response} {cookies : Option CookieStore} {body : Bytes}

/-- A response whose headers announce its length is **read back by it**, whatever cookies go with
it and whatever comes behind. -/
theorem read_head (h : ∀ e ∈ r.headers.entries, Reply.Legible e)
    (hcookies : ∀ store ∈ cookies, store.touched = true → Named.Unsplit store.entries)
    (hlength : Reply.length? r.headers.entries = some body.length) (rest : Bytes) :
    ∃ more, Reply.read (utf8 (r.head cookies) ++ body ++ rest)
      = some ({ code := r.status.code, reason := r.status.reason,
                headers := r.headers.entries ++ more, body }, rest) := by
  let o : Outgoing := { status := r.status, steps := [], cookies? := cookies }
  have hlegible : ∀ e ∈ r.headers.entries ++ o.setCookies, Reply.Legible e := by
    intro e he
    rcases List.mem_append.1 he with he | he
    · exact h e he
    · exact Outgoing.legible_setCookies (o := o) hcookies e he
  have hhead : utf8 (r.head cookies) ++ body ++ rest = utf8 ("HTTP/1.1 " ++ r.status.text) ++ crlf
      ++ (utf8 (String.join ((r.headers.entries ++ o.setCookies).map headerLine)) ++ crlf
        ++ (body ++ rest)) := by
    have hset : cookieLines cookies = String.join (o.setCookies.map headerLine) :=
      o.cookieLines_eq
    simp only [head, statusLine, hset, List.map_append, String.join_append, utf8_append, utf8_crlf,
      List.append_assoc]
  refine ⟨o.setCookies, ?_⟩
  rw [hhead]
  exact Reply.read_of_lines hlegible ((Reply.length?_setCookies _ o).trans hlength) rest

end Response

/-! ### Nothing in a coding -/

/-- An encoder and a decoder of the codings, **which undoes it** and takes nothing for a body that is
in a coding. -/
structure Encoder.Undone (encode : Encoder) (decode : ContentCoding → Bytes → Option Bytes) :
    Prop where
  decode_encode : ∀ coding level data, decode coding (encode coding level data) = some data
  /-- Each coding has some bytes that a body in it begins with. -/
  decode_nil : ∀ coding, decode coding [] = none

/-- No data in a coding is **some bytes**, at any level. -/
theorem Encoder.Undone.encode_ne_nil {encode : Encoder}
    {decode : ContentCoding → Bytes → Option Bytes} (h : encode.Undone decode)
    (coding : ContentCoding) (level : Nat) (data : Bytes) :
    encode coding level data ≠ [] := by
  intro hnone
  have hdecoded := h.decode_encode coding level data
  rw [hnone, h.decode_nil] at hdecoded
  cases hdecoded

theorem ContentCoding.undone_encode : Encoder.Undone encode decode? where
  decode_encode := decode?_encode
  decode_nil coding := by cases coding <;> cbv

namespace Compression

open Compressor

/-- The coding that a client gets which accepts these: **the first of those offered**. -/
def chosen? (config : Compression) (accepted : Option String) : Option ContentCoding :=
  accepted.bind fun text =>
    config.codings.find? fun coding => (tokens text).any (sameName · coding.name)

theorem bind_choose? (encode : Encoder) (config : Compression) (accepted : Option String) :
    accepted.bind (choose? (config.compressors encode))
      = (config.chosen? accepted).map (·.compressor encode config.level) := by
  cases accepted with
  | none => rfl
  | some text =>
    simp only [Option.bind_some, chosen?, choose?, compressors, List.find?_map]
    rfl

variable {encode : Encoder} {config : Compression} {others : List Handler} {c c' : Context}
  {r : Response} {coding : ContentCoding}

/-- A response is written **in the coding that is chosen**, whatever its body is. -/
theorem run_chosen {data : Bytes} (hrest : (Chain.mk others).run c = (.done, c'))
    (hr : c'.response? = some r) (hbody : r.body.contents = (data, .ended))
    (hcoding : config.chosen? (c'.request.header? "accept-encoding") = some coding) :
    (Chain.mk (config.handler encode :: others)).run c
      = (.done, c'.respond (r.coded data [] (coding.compressor encode config.level))) := by
  have hchoice := config.bind_choose? encode (c'.request.header? "accept-encoding")
  rw [hcoding, Option.map_some] at hchoice
  have hrun : (Chain.mk (config.handler encode :: others)).run c
      = recode (config.compressors encode) c' :=
    run_handler (config.compressors encode) hrest
  simp only [hrun, recode, hchoice, hr, Response.compressed_plain hbody]

/-- Where no coding is chosen **nothing changes**. -/
theorem run_unchosen (hrest : (Chain.mk others).run c = (.done, c'))
    (hcoding : config.chosen? (c'.request.header? "accept-encoding") = none) :
    (Chain.mk (config.handler encode :: others)).run c = (.done, c') := by
  have hchoice := config.bind_choose? encode (c'.request.header? "accept-encoding")
  rw [hcoding, Option.map_none] at hchoice
  exact (run_handler (config.compressors encode) hrest).trans (recode_idle (.inr hchoice))

/-- The first length that a response in a coding announces **is that of its body**. -/
theorem length?_coded (headers : Headers) (name : String) (length : Nat) :
    Reply.length? (headers.coded [] name length).entries = some length := by
  have habsent : ∀ e ∈ (headers.erase "content-length").entries,
      sameName e.1 "content-length" = false := by
    intro e he
    have := (List.mem_filter.1 he).2
    rwa [Bool.not_eq_true'] at this
  have hsame : sameName "Content-Length" "content-length" = true := by decide
  have hfind : Named.find? "content-length" (headers.coded [] name length).entries
      = some (toString length) := by
    simp only [Headers.coded, List.map_nil, List.append_nil]
    rw [Outgoing.find?_of_absent habsent, Named.find?_cons]
    simp only [hsame, if_true]
  exact Reply.length?_of_find? hfind

theorem legible_coded {headers : Headers} {coding : ContentCoding} {length : Nat}
    (h : ∀ e ∈ headers.entries, Reply.Legible e) :
    ∀ e ∈ (headers.coded [] coding.name length).entries, Reply.Legible e := by
  intro e he
  simp only [Headers.coded, List.map_nil, List.append_nil] at he
  rcases List.mem_append.1 he with he | he
  · exact h e (List.mem_of_mem_filter he)
  · rcases List.mem_cons.1 he with rfl | he
    · have hname : Unbroken "Content-Length" ∧ ¬ [':', ' '] <:+: "Content-Length".toList := by
        decide
      exact ⟨hname.1, Outgoing.unbroken_toString _, hname.2⟩
    · rw [List.mem_singleton.1 he]
      have hname : Unbroken "Content-Encoding" ∧ ¬ [':', ' '] <:+: "Content-Encoding".toList := by
        decide
      have hcoding : Unbroken coding.name := by cases coding <;> decide
      exact ⟨hname.1, hcoding, hname.2⟩

/-- **What becomes of an answer without a body.** Nothing, where the client accepts no coding that is
offered. Where it accepts one, status and close flag stay and the body is no data in that coding:
**some bytes**, which are a body in it and decode to none. Of all lengths that were announced one is
left, and it is that of these bytes. So whatever the status, a client that reads by the length finds
the next response where it begins, if no header or cookie ends a line and no header name holds a
colon with a blank behind it. -/
theorem run_emptied (encode : Encoder) (decode : ContentCoding → Bytes → Option Bytes)
    (hundone : encode.Undone decode) (config : Compression) (others : List Handler) (c c' : Context)
    (r : Response) (hrest : (Chain.mk others).run c = (.done, c')) (hr : c'.response? = some r)
    (hbody : r.body.contents = ([], .ended)) :
    (config.chosen? (c'.request.header? "accept-encoding") = none →
      (Chain.mk (config.handler encode :: others)).run c = (.done, c')) ∧
    ∀ coding, config.chosen? (c'.request.header? "accept-encoding") = some coding →
      ∃ coded : Response,
        (Chain.mk (config.handler encode :: others)).run c = (.done, c'.respond coded) ∧
        coded.status = r.status ∧ coded.close = r.close ∧
        ∃ body : Bytes, coded.body = .bytes body ∧ body = encode coding config.level [] ∧
          body ≠ [] ∧ decode coding body = some [] ∧
          coded.headers.entries = r.headers.entries.filter (fun e => !sameName e.1 "content-length")
            ++ [("Content-Length", toString body.length), ("Content-Encoding", coding.name)] ∧
          ∀ (cookies : Option CookieStore) (next : Bytes),
            (∀ e ∈ r.headers.entries, Reply.Legible e) →
            (∀ store ∈ cookies, store.touched = true → Named.Unsplit store.entries) →
            ∃ more, Reply.read (utf8 (coded.head cookies) ++ body ++ next)
              = some ({ code := r.status.code, reason := r.status.reason,
                        headers := coded.headers.entries ++ more, body }, next) := by
  refine ⟨run_unchosen hrest, fun coding hcoding => ?_⟩
  refine ⟨r.coded [] [] (coding.compressor encode config.level),
    run_chosen hrest hr hbody hcoding, rfl, rfl, encode coding config.level [], rfl, rfl,
    hundone.encode_ne_nil _ _ _, hundone.decode_encode _ _ _, ?_,
    fun cookies next hlegible hcookies => ?_⟩
  · simp only [Response.coded, Headers.coded, List.map_nil, List.append_nil]
    rfl
  · exact Response.read_head (r := r.coded [] [] (coding.compressor encode config.level))
      (legible_coded hlegible) hcookies (length?_coded _ _ _) next

/-- The answer to a client whose copy is still good, with what its length would be. -/
def unchanged : Response where
  status := .notModified
  headers := ⟨[("ETag", "7"), ("content-length", "0"), ("Content-Length", "0")]⟩
  body := .empty

/-- A client is told that nothing changed, **and gets a body**. -/
theorem run_emptied_unchanged :
    ∃ coded : Response,
      (Chain.mk [(⟨[.deflate], 0⟩ : Compression).handler ContentCoding.encode,
          Handler.alone (·.respond unchanged)]).run
          Chain.anyCoding = (.done, Chain.anyCoding.respond coded) ∧
        coded.status = .notModified ∧
        ∃ body : Bytes, coded.body = .bytes body ∧ body ≠ [] ∧
          coded.headers.entries = [("ETag", "7"), ("Content-Length", toString body.length),
            ("Content-Encoding", "deflate")] ∧
          ∃ reply, Reply.read (utf8 (coded.head none) ++ body ++ ascii "HTTP/1.1 200 OK")
            = some (reply, ascii "HTTP/1.1 200 OK") := by
  have hlegible : ∀ e ∈ unchanged.headers.entries, Reply.Legible e := by
    have h : ∀ e ∈ [("ETag", "7"), ("content-length", "0"), ("Content-Length", "0")],
        Unbroken e.1 ∧ Unbroken e.2 ∧ ¬ [':', ' '] <:+: e.1.toList := by decide
    intro e he
    obtain ⟨hname, hvalue, huncut⟩ := h e he
    exact ⟨hname, hvalue, huncut⟩
  obtain ⟨coded, hrun, hstatus, -, body, hcoded, -, hne, -, hheaders, hread⟩ :=
    (run_emptied ContentCoding.encode ContentCoding.decode? ContentCoding.undone_encode
      ⟨[.deflate], 0⟩ [Handler.alone (·.respond unchanged)] Chain.anyCoding
      (Chain.anyCoding.respond unchanged) unchanged rfl rfl rfl).2 .deflate rfl
  obtain ⟨more, hmore⟩ := hread none (ascii "HTTP/1.1 200 OK") hlegible nofun
  exact ⟨coded, hrun, hstatus, body, hcoded, hne, hheaders, _, hmore⟩

/-- An answer without content **does not stay empty**: there are bytes in its body, and the length it
announces is not zero. -/
theorem not_kept_empty :
    ∃ coded : Response,
      (Chain.mk [(⟨[.gzip], 6⟩ : Compression).handler ContentCoding.encode,
          Handler.alone (·.respond (Response.empty .noContent))]).run Chain.anyCoding
        = (.done, Chain.anyCoding.respond coded) ∧
      coded.status = .noContent ∧ coded.body.contents.1 ≠ [] ∧
      coded.headers.get? "content-length" ≠ some "0" := by
  have hsome := ContentCoding.undone_encode.encode_ne_nil .gzip 6 []
  have hrest : (Chain.mk [Handler.alone (·.respond (Response.empty .noContent))]).run Chain.anyCoding
      = (.done, Chain.anyCoding.respond (Response.empty .noContent)) := rfl
  have hcoding : (⟨[.gzip], 6⟩ : Compression).chosen?
      ((Chain.anyCoding.respond (Response.empty .noContent)).request.header? "accept-encoding")
        = some .gzip := rfl
  have hrun : (Chain.mk [(⟨[.gzip], 6⟩ : Compression).handler ContentCoding.encode, _]).run _ = _ :=
    run_chosen hrest rfl rfl hcoding
  let coded := (Response.empty .noContent).coded [] []
    (ContentCoding.gzip.compressor ContentCoding.encode 6)
  refine ⟨coded, hrun, rfl, hsome, fun hzero => hsome ?_⟩
  -- the length that is announced is that of the body
  have hlength : Reply.length? coded.headers.entries
      = some (ContentCoding.gzip.encode 6 []).length := length?_coded _ _ _
  have hread : Reply.length? coded.headers.entries = some 0 := by
    rw [Reply.length?, show Named.find? "content-length" coded.headers.entries = some "0" from hzero]
    decide
  rw [hread, Option.some_inj] at hlength
  exact List.length_eq_zero_iff.1 hlength.symm

end Compression

end HttpEngine
