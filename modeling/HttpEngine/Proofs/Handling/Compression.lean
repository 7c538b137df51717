import HttpEngine.Handling.Compression
import HttpEngine.Handling.Stock
import HttpEngine.Proofs.Coding.Content
import HttpEngine.Proofs.Message.Delivery
import Mathlib.Data.List.Induction

/-!
# Responses written by compressors one after another

Handlers are left from the inside out, so the last of a row of compressing handlers is the first to
write a response. Each takes the length out that the one before it announced and puts its own in,
in front of its name. **However many there are, one length is left**, in front of the last name.

* `Compressor.applied`: the compressors that are used, the first one first.
* `Response.coded`: a response written by all of them.
* `Compressor.undo?`: a body with one compressor after another undone.
* `Chain.run_compressed`: what a row of compressing handlers makes of a response.
-/

namespace HttpEngine

open Text

/-! ### Bodies -/

theorem Body.collect_of_ended {b : Body} {data : Bytes} (h : b.contents = (data, .ended)) :
    b.collect = (data, .ended) :=
  b.collect_eq_contents.trans h

/-! ### Headers -/

/-- The headers of a response once compressors wrote it, the one named `last` at the end and the
others before it: **one length**, that of the body as it is then. -/
def Headers.coded (headers : Headers) (front : List String) (last : String) (length : Nat) :
    Headers :=
  ⟨(headers.erase "content-length").entries ++ front.map (fun name => ("Content-Encoding", name))
    ++ [("Content-Length", toString length), ("Content-Encoding", last)]⟩

theorem Headers.append_erase (headers : Headers) (name : String) (length : Nat) :
    ((headers.erase "content-length").append "Content-Length" (toString length)).append
        "Content-Encoding" name = headers.coded [] name length := by
  simp only [append, coded, List.map_nil, List.append_nil, List.append_assoc]
  rfl

/-- The length that was announced **goes when the next is**, and the names stay. -/
theorem Headers.append_erase_coded (headers : Headers) (front : List String) (last name : String)
    (before length : Nat) :
    (((headers.coded front last before).erase "content-length").append "Content-Length"
        (toString length)).append "Content-Encoding" name
      = headers.coded (front ++ [last]) name length := by
  have hname : sameName "Content-Encoding" "content-length" = false := by decide
  have hlength : sameName "Content-Length" "content-length" = true := by decide
  have hnames : (front.map fun name => ("Content-Encoding", name)).filter
      (fun e => !sameName e.1 "content-length")
        = front.map fun name => ("Content-Encoding", name) := by
    refine List.filter_eq_self.2 fun e he => ?_
    obtain ⟨name, -, rfl⟩ := List.mem_map.1 he
    rw [hname]
    rfl
  have hend : [("Content-Length", toString before), ("Content-Encoding", last)].filter
      (fun e => !sameName e.1 "content-length") = [("Content-Encoding", last)] := by
    simp only [List.filter_cons, hlength, hname]
    rfl
  simp only [append, coded, erase, Named.without, List.filter_append, List.filter_filter,
    Bool.and_self, hnames, hend, List.map_append, List.append_assoc]
  rfl

/-! ### Responses -/

namespace Compressor

/-- The compressors that a row of handlers uses for a client that accepts these codings, **the last
handler's first**. -/
def applied (handlers : List (List Compressor)) (accepted : Option String) : List Compressor :=
  handlers.reverse.filterMap fun offered => accepted.bind (choose? offered)

/-- A body written by one compressor after another. -/
def encodeAll (compressors : List Compressor) (data : Bytes) : Bytes :=
  compressors.foldl (fun body c => c.encode body) data

theorem encodeAll_concat (front : List Compressor) (last : Compressor) (data : Bytes) :
    encodeAll (front ++ [last]) data = last.encode (encodeAll front data) := by
  rw [encodeAll, List.foldl_append]
  rfl

/-- A body with compressors undone, **named last one first**. -/
def undo? (decode : String → Bytes → Option Bytes) : List String → Bytes → Option Bytes
  | [], body => some body
  | name :: earlier, body => (decode name body).bind (undo? decode earlier)

/-- What decoders undo one by one they undo **in a row**. -/
theorem undo?_encodeAll {decode : String → Bytes → Option Bytes} {compressors : List Compressor}
    (h : ∀ c ∈ compressors, ∀ data, decode c.name (c.encode data) = some data) (data : Bytes) :
    undo? decode (compressors.reverse.map (·.name)) (encodeAll compressors data) = some data := by
  induction compressors using List.reverseRecOn with
  | nil => rfl
  | append_singleton front last ih =>
    obtain ⟨hfront, hlast⟩ := List.forall_mem_append.1 h
    rw [encodeAll_concat, List.reverse_concat, List.map_cons, undo?, hlast last List.mem_cons_self,
      Option.bind_some, ih hfront]

end Compressor

open Compressor

/-- A response with this data as its body **once compressors wrote it**, `last` at the end and the
others before it. -/
def Response.coded (r : Response) (data : Bytes) (front : List Compressor) (last : Compressor) :
    Response where
  status := r.status
  close := r.close
  headers := r.headers.coded (front.map (·.name)) last.name
    (encodeAll (front ++ [last]) data).length
  body := .bytes (encodeAll (front ++ [last]) data)

theorem Response.compressed_plain {r : Response} {data : Bytes}
    (h : r.body.contents = (data, .ended)) (c : Compressor) :
    r.compressed c = .ok (r.coded data [] c) := by
  unfold compressed
  rw [Body.collect_of_ended h]
  simp only [recoded, Headers.append_erase]
  rfl

theorem Response.compressed_coded (r : Response) (data : Bytes) (front : List Compressor)
    (last c : Compressor) :
    (r.coded data front last).compressed c = .ok (r.coded data (front ++ [last]) c) := by
  have hbody : c.encode (encodeAll (front ++ [last]) data)
      = encodeAll (front ++ [last] ++ [c]) data := (encodeAll_concat _ c data).symm
  simp only [compressed, coded, Body.collect, recoded, Headers.append_erase_coded, hbody,
    List.map_append, List.map_cons, List.map_nil]

/-! ### Codings -/

/-- A body decoded from the coding **with this name**. -/
def ContentCoding.decodeNamed? (name : String) (body : Bytes) : Option Bytes :=
  (ofName? name).bind (·.decode? body)

/-- Every coding that can be offered, at any level, **is undone by its name**. -/
theorem Compression.decodeNamed?_encode {c : Compression} {x : Compressor}
    (h : x ∈ c.compressors ContentCoding.encode) (data : Bytes) :
    ContentCoding.decodeNamed? x.name (x.encode data) = some data := by
  obtain ⟨coding, -, rfl⟩ := List.mem_map.1 h
  have hname : ContentCoding.ofName? coding.name = some coding := by cases coding <;> decide
  have hdecoded := coding.decode?_encode c.level data
  rw [ContentCoding.decodeNamed?, ContentCoding.compressor, hname]
  exact hdecoded

/-! ### Handlers -/

/-- What is left of a context whose response these compressors wrote. -/
inductive Compressor.Left (c : Context) (r : Response) (data : Bytes) :
    List Compressor → Context → Prop
  | plain : Left c r data [] c
  | coded (front : List Compressor) (last : Compressor) :
      Left c r data (front ++ [last]) (c.respond (r.coded data front last))

namespace Compressor

variable {c c' ctx : Context} {r : Response} {data : Bytes} {used : List Compressor}

theorem Left.request_eq (h : Left c r data used ctx) : ctx.request = c.request := by
  cases h <;> rfl

/-- One handler more **uses the compressor that it chooses**, if it chooses one. -/
theorem Left.recode (h : Left c r data used ctx) (hr : c.response? = some r)
    (hbody : r.body.contents = (data, .ended)) (offered : List Compressor) :
    ∃ ctx', recode offered ctx = (.done, ctx') ∧
      Left c r data
        (used ++ ((c.request.header? "accept-encoding").bind (choose? offered)).toList) ctx' := by
  unfold Compressor.recode
  rw [h.request_eq]
  cases (c.request.header? "accept-encoding").bind (choose? offered) with
  | none =>
    refine ⟨ctx, rfl, ?_⟩
    rw [Option.toList_none, List.append_nil]
    exact h
  | some x =>
    rw [Option.toList_some]
    cases h with
    | plain =>
      refine ⟨c.respond (r.coded data [] x), ?_, .coded [] x⟩
      rw [hr]
      simp only [r.compressed_plain hbody x]
    | coded front last =>
      refine ⟨c.respond (r.coded data (front ++ [last]) x), ?_, .coded _ x⟩
      simp only [Context.respond, r.compressed_coded data front last x]

variable {rest : Next}

theorem run_handler (offered : List Compressor) (h : (rest.run c).outcome = (.done, ctx)) :
    ((Next.before (handler offered) rest).run c).outcome = recode offered ctx := by
  rw [Next.outcome_goOn rfl, h]
  rfl

/-- A row of handlers **uses the compressors that they choose**, from the inside out. -/
theorem run_handlers (handlers : List (List Compressor)) (hrest : (rest.run c).outcome = (.done, c'))
    (hr : c'.response? = some r) (hbody : r.body.contents = (data, .ended)) :
    ∃ ctx, ((Next.through (handlers.map handler) rest).run c).outcome = (.done, ctx) ∧
      Left c' r data (applied handlers (c'.request.header? "accept-encoding")) ctx := by
  induction handlers with
  | nil => exact ⟨c', hrest, .plain⟩
  | cons offered handlers ih =>
    obtain ⟨ctx, hrun, hleft⟩ := ih
    obtain ⟨after, hrecode, hafter⟩ := hleft.recode hr hbody offered
    refine ⟨after, (run_handler offered hrun).trans hrecode, ?_⟩
    have happlied : applied (offered :: handlers) (c'.request.header? "accept-encoding")
        = applied handlers (c'.request.header? "accept-encoding")
          ++ ((c'.request.header? "accept-encoding").bind (choose? offered)).toList := by
      rw [applied, List.reverse_cons, List.filterMap_append, List.filterMap_cons,
        List.filterMap_nil]
      cases (c'.request.header? "accept-encoding").bind (choose? offered) <;> rfl
    rwa [happlied]

/-- A row of handlers of which none does anything **does nothing**. -/
theorem run_handlers_idle (handlers : List (List Compressor))
    (hrest : (rest.run c).outcome = (.done, c'))
    (h : ∀ offered ∈ handlers, recode offered c' = (.done, c')) :
    ((Next.through (handlers.map handler) rest).run c).outcome = (.done, c') := by
  induction handlers with
  | nil => exact hrest
  | cons offered handlers ih =>
    obtain ⟨hfirst, hothers⟩ := List.forall_mem_cons.1 h
    exact (run_handler offered (ih hothers)).trans hfirst

theorem Left.eq_coded {front : List Compressor} {last : Compressor}
    (h : Left c r data (front ++ [last]) ctx) : ctx = c.respond (r.coded data front last) := by
  generalize hused : front ++ [last] = used at h
  cases h with
  | plain => exact absurd hused (List.append_ne_nil_of_right_ne_nil _ (List.cons_ne_nil _ _))
  | coded front' last' =>
    obtain ⟨rfl, hlast⟩ := List.append_inj' hused rfl
    rw [(List.cons.inj hlast).1]

theorem exists_offered_of_mem_applied {handlers : List (List Compressor)}
    {accepted : Option String} {x : Compressor} (h : x ∈ applied handlers accepted) :
    ∃ offered ∈ handlers, x ∈ offered := by
  obtain ⟨offered, hoffered, hx⟩ := List.mem_filterMap.1 h
  obtain ⟨text, -, hchosen⟩ := Option.bind_eq_some_iff.1 hx
  exact ⟨offered, List.mem_reverse.1 hoffered, List.mem_of_find?_eq_some hchosen⟩

theorem choose?_eq_none_of_applied {handlers : List (List Compressor)} {accepted : Option String}
    (h : applied handlers accepted = []) :
    ∀ offered ∈ handlers, accepted.bind (choose? offered) = none :=
  fun offered hoffered =>
    List.filterMap_eq_nil_iff.1 h offered (List.mem_reverse.2 hoffered)

theorem recode_idle {offered : List Compressor}
    (h : c.response? = none ∨ (c.request.header? "accept-encoding").bind (choose? offered) = none) :
    recode offered c = (.done, c) := by
  unfold recode
  rcases h with h | h
  · rw [h]
    cases (c.request.header? "accept-encoding").bind (choose? offered) <;> rfl
  · rw [h]

end Compressor

namespace Chain

/-- **A row of compressing handlers in front of others that answer.** Those that find a compressor
write the response, from the inside out: status and close flag stay, and the headers are those of
the answer but for every length, the names of the compressors but for the last, the length of the
body as it is, and the last name. Decoders that undo the compressors give the answer's body back,
undone from the last to the first. Where there is no response, or no coding is asked for, or none
is found, nothing changes. -/
theorem run_compressed (handlers : List (List Compressor)) (others : List Handler)
    (decode : String → Bytes → Option Bytes)
    (hundo : ∀ offered ∈ handlers, ∀ x ∈ offered, ∀ data,
      decode x.name (x.encode data) = some data)
    (c c' : Context) (hrest : (Chain.mk others).run c = (.done, c')) :
    (c'.response? = none ∨ c'.request.header? "accept-encoding" = none ∨
        applied handlers (c'.request.header? "accept-encoding") = [] →
      (Chain.mk (handlers.map handler ++ others)).run c = (.done, c')) ∧
    ∀ r data front last, c'.response? = some r → r.body.contents = (data, .ended) →
      applied handlers (c'.request.header? "accept-encoding") = front ++ [last] →
      ∃ body : Bytes,
        (Chain.mk (handlers.map handler ++ others)).run c = (.done, c'.respond
          { status := r.status
            headers := ⟨(r.headers.erase "content-length").entries
              ++ front.map (fun x => ("Content-Encoding", x.name))
              ++ [("Content-Length", toString body.length), ("Content-Encoding", last.name)]⟩
            close := r.close
            body := .bytes body }) ∧
        undo? decode ((front ++ [last]).reverse.map (·.name)) body = some data := by
  have hrun : (Chain.mk (handlers.map handler ++ others)).run c
      = ((Next.through (handlers.map handler) (Next.through others Next.done)).run c).outcome := by
    rw [run, passage, Next.through, List.foldr_append]
    rfl
  rw [hrun]
  constructor
  · intro hidle
    refine run_handlers_idle handlers hrest fun offered hoffered => recode_idle ?_
    rcases hidle with hnone | hnone | hnone
    · exact .inl hnone
    · exact .inr (by rw [hnone, Option.bind_none])
    · exact .inr (choose?_eq_none_of_applied hnone offered hoffered)
  · intro r data front last hr hbody happlied
    obtain ⟨ctx, hctx, hleft⟩ := run_handlers handlers hrest hr hbody
    rw [happlied] at hleft
    have hmem : ∀ x ∈ front ++ [last], ∀ data, decode x.name (x.encode data) = some data := by
      intro x hx
      rw [← happlied] at hx
      obtain ⟨offered, hoffered, hx⟩ := exists_offered_of_mem_applied hx
      exact hundo offered hoffered x hx
    refine ⟨encodeAll (front ++ [last]) data, ?_, undo?_encodeAll hmem data⟩
    rw [hctx, hleft.eq_coded, Response.coded, Headers.coded, List.map_map]
    rfl

/-- Two handlers, the inner one of which offers only one coding and that one stored. -/
def twice : List Compression := [⟨[.gzip, .deflate], 6⟩, ⟨[.deflate], 0⟩]

/-- An answer that is read while it is sent, with its length announced twice. -/
def announced : Response where
  status := .ok
  headers := ⟨[("content-LENGTH", "5"), ("X-A", "1"), ("Content-Length", "7")]⟩
  body := .reader { pieces := [.data (ascii "he"), .data (ascii "llo")] }

/-- A request for any coding. -/
def anyCoding : Context where
  request := { method := .get, target := "/", protocol := "HTTP/1.1", body := []
               headers := ⟨[("Accept-Encoding", "GZIP , deflate")]⟩ }
  remote := ⟨"127.0.0.1", 40000⟩

/-- The answer is written in both codings, **deflate first**, and both are undone. -/
theorem run_compressed_twice :
    ∃ body : Bytes,
      (Chain.mk (twice.map (Compression.handler ContentCoding.encode)
          ++ [Handler.alone (·.respond announced)])).run anyCoding
        = (.done, anyCoding.respond
          { status := .ok
            headers := ⟨[("X-A", "1"), ("Content-Encoding", "deflate"),
              ("Content-Length", toString body.length), ("Content-Encoding", "gzip")]⟩
            body := .bytes body }) ∧
      undo? ContentCoding.decodeNamed? ["gzip", "deflate"] body = some (ascii "hello") := by
  have hundo : ∀ offered ∈ twice.map (Compression.compressors ContentCoding.encode),
      ∀ x ∈ offered, ∀ data, ContentCoding.decodeNamed? x.name (x.encode data) = some data := by
    intro offered hoffered x hx data
    obtain ⟨c, -, rfl⟩ := List.mem_map.1 hoffered
    exact Compression.decodeNamed?_encode hx data
  have happlied : applied (twice.map (Compression.compressors ContentCoding.encode))
        (some "GZIP , deflate")
      = [ContentCoding.deflate.compressor ContentCoding.encode 0]
        ++ [ContentCoding.gzip.compressor ContentCoding.encode 6] := rfl
  exact (run_compressed (twice.map (Compression.compressors ContentCoding.encode))
    [Handler.alone (·.respond announced)] ContentCoding.decodeNamed? hundo anyCoding
    (anyCoding.respond announced) rfl).2 announced
    (ascii "hello") _ _ rfl rfl happlied

end Chain

end HttpEngine
