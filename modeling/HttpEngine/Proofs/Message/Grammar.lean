import HttpEngine.Proofs.Message.Fields
import HttpEngine.Proofs.Transport.Calls

/-!
# What byte strings are requests

* `LineAt`, `Unended`, `Overlong`: the three ways a byte string can begin.
* `Fields`: header lines in front of a byte string, read one by one.
* `Judged`: what becomes of a byte string, and what is left of it. **The first problem
  decides**, in the order of the bytes; the length, the body and the method come last.
* `judged_total`: something becomes of every byte string.
* `Draft.receive_of_judged`, `Parser.parse_of_judged`: a parser does with it what is said there.
-/

namespace HttpEngine

open Text
open Plain (starved)

/-! ### Lines -/

/-- A line in front of `rest`, up to the **first** carriage return and line feed, which ends
within the first `window` bytes. -/
structure LineAt (window : Nat) (bytes line rest : Bytes) : Prop where
  eq : bytes = line ++ crlf ++ rest
  first : ¬ crlf <:+: line
  fits : line.length + 2 ≤ window

/-- Fewer than `window` bytes, and no line ends in them. -/
structure Unended (window : Nat) (bytes : Bytes) : Prop where
  no_crlf : ¬ crlf <:+: bytes
  short : bytes.length < window

/-- No line ends in the first `window` bytes. -/
structure Overlong (window : Nat) (bytes : Bytes) : Prop where
  no_crlf : ¬ crlf <:+: bytes.take window
  long : window ≤ bytes.length

/-- The three parts of a request line: before the first space, between the first and the last,
and after the last. -/
structure RequestLine (line : Bytes) (verb target protocol : String) : Prop where
  eq : latin1 line = verb ++ " " ++ target ++ " " ++ protocol
  verb : ' ' ∉ verb.toList
  protocol : ' ' ∉ protocol.toList

/-- The two parts of a header line, around its first colon and space. -/
structure HeaderLine (line : Bytes) (name value : String) : Prop where
  eq : latin1 line = name ++ ": " ++ value
  first : ¬ [':', ' '] <:+: name.toList

/-- Header lines in front of `rest`, with their names and values. -/
inductive Fields (window : Nat) : Bytes → List (String × String) → Bytes → Prop
  | nil (bytes : Bytes) : Fields window bytes [] bytes
  | cons {bytes line after rest : Bytes} {name value : String} {fields : List (String × String)}
      (line_at : LineAt window bytes line after) (header : HeaderLine line name value)
      (more : Fields window after fields rest) :
      Fields window bytes ((name, value) :: fields) rest

/-- A request line and header lines in front of `rest`. -/
def Opened (window : Nat) (bytes : Bytes) (verb target protocol : String)
    (fields : List (String × String)) (rest : Bytes) : Prop :=
  ∃ line after, LineAt window bytes line after ∧ RequestLine line verb target protocol ∧
    Fields window after fields rest

/-- The body length that header lines announce: none is zero and a negative one too. -/
def Announces (fields : List (String × String)) (n : Nat) : Prop :=
  lastValue? "content-length" fields = none ∧ n = 0 ∨
    ∃ raw k, lastValue? "content-length" fields = some raw ∧
      intUpTo? maxInt64 (trim raw) = some k ∧ n = k.toNat

/-- The name of the method: a header `_method` takes the place of the verb. -/
def methodName (verb : String) (fields : List (String × String)) : String :=
  (lastValue? "_method" fields).getD verb

/-- What becomes of a byte string on a stream that ends after it or stays open, and what is left
of it. A line may have `limit` bytes and is looked for in `window`; one whose end is not found there
comes to `Link.lineFault limit`, which is that it is too long **wherever there is a word for the
bytes that may be read of it**. -/
inductive Judged (limit window : Nat) (ends : Bool) (bytes : Bytes) :
    Except (Halt Error) (Option Request) → Bytes → Prop
  | noLine (unended : Unended window bytes) :
      Judged limit window ends bytes (starved ends (.ok none)) []
  | lineTooLong (overlong : Overlong window bytes) :
      Judged limit window ends bytes (.error ((Link.lineFault limit).map .io))
        (bytes.drop window)
  | noRequestLine {line rest : Bytes} (line_at : LineAt window bytes line rest)
      (spaces : (latin1 line).toList.count ' ' < 2) :
      Judged limit window ends bytes (.ok none) rest
  | endsInHead {verb target protocol : String} {fields : List (String × String)} {rest : Bytes}
      (opened : Opened window bytes verb target protocol fields rest)
      (unended : Unended window rest) :
      Judged limit window ends bytes (starved ends (.ok none)) []
  | headerTooLong {verb target protocol : String} {fields : List (String × String)} {rest : Bytes}
      (opened : Opened window bytes verb target protocol fields rest)
      (overlong : Overlong window rest) :
      Judged limit window ends bytes (.error ((Link.lineFault limit).map .io))
        (rest.drop window)
  | malformedHeader {verb target protocol : String} {fields : List (String × String)}
      {rest line after : Bytes} (opened : Opened window bytes verb target protocol fields rest)
      (line_at : LineAt window rest line after) (filled : line ≠ [])
      (uncut : ¬ [':', ' '] <:+: (latin1 line).toList) :
      Judged limit window ends bytes (.error (.failed (.malformedHeader (latin1 line)))) after
  | invalidLength {verb target protocol : String} {fields : List (String × String)}
      {rest after : Bytes} {raw : String}
      (opened : Opened window bytes verb target protocol fields rest)
      (blank : LineAt window rest [] after)
      (announced : lastValue? "content-length" fields = some raw)
      (invalid : intUpTo? maxInt64 (trim raw) = none) :
      Judged limit window ends bytes (.error (.failed (.invalidContentLength raw))) after
  | bodyCutShort {verb target protocol : String} {fields : List (String × String)}
      {rest after : Bytes} {n : Nat}
      (opened : Opened window bytes verb target protocol fields rest)
      (blank : LineAt window rest [] after) (announced : Announces fields n)
      (short : after.length < n) :
      Judged limit window ends bytes
        (starved ends (.error (.failed (.io (.bodyCutShort after.length n))))) []
  | unknownMethod {verb target protocol : String} {fields : List (String × String)}
      {rest after : Bytes} {n : Nat}
      (opened : Opened window bytes verb target protocol fields rest)
      (blank : LineAt window rest [] after) (announced : Announces fields n)
      (enough : n ≤ after.length) (unknown : Method.ofName? (methodName verb fields) = none) :
      Judged limit window ends bytes
        (.error (.failed (.unknownMethod (methodName verb fields)))) (after.drop n)
  | request {verb target protocol : String} {fields : List (String × String)}
      {rest after : Bytes} {n : Nat} {m : Method}
      (opened : Opened window bytes verb target protocol fields rest)
      (blank : LineAt window rest [] after) (announced : Announces fields n)
      (enough : n ≤ after.length) (known : Method.ofName? (methodName verb fields) = some m) :
      Judged limit window ends bytes
        (.ok (some
          { method := m, target, protocol, headers := .collapsed fields, body := after.take n }))
        (after.drop n)

/-! ### One line -/

variable {window limit : Nat} {ends : Bool} {bytes line rest : Bytes}

theorem Plain.line_of_lineAt (h : LineAt window bytes line rest) :
    Plain.line limit window ends bytes = (.ok (some line), rest) := by
  have hc : cutAt crlf bytes = some (line, rest) :=
    (cutAt_pair_eq_some_iff (by decide)).2 ⟨by simp [h.eq, crlf], h.first⟩
  have hf : line.length + 2 ≤ 0 + window := by
    have := h.fits
    omega
  simp only [Plain.line, Plain.lineAfter, List.nil_append, hc, List.length_nil, hf, if_true]

theorem Plain.line_of_unended (h : Unended window bytes) :
    Plain.line limit window ends bytes = (starved ends (.ok none), []) := by
  have hc : cutAt crlf bytes = none := (cutAt_eq_none_iff (by decide)).2 h.no_crlf
  simp only [Plain.line, Plain.lineAfter, List.nil_append, hc, h.short, if_true]

theorem Plain.line_of_overlong (h : Overlong window bytes) :
    Plain.line limit window ends bytes
      = (.error (Link.lineFault limit), bytes.drop window) := by
  simp only [Plain.line, Plain.lineAfter, List.nil_append, List.length_nil, Nat.zero_add]
  cases hc : cutAt crlf bytes with
  | none =>
    have hl : ¬ bytes.length < window := Nat.not_lt.2 h.long
    simp only [hl, if_false]
  | some cut =>
    obtain ⟨line, rest⟩ := cut
    obtain ⟨he, -⟩ := (cutAt_pair_eq_some_iff (by decide)).1 hc
    have hwindow : (bytes.take window).length = window := List.length_take_of_le h.long
    have hl : ¬ line.length + 2 ≤ window := fun hle =>
      h.no_crlf (crlf_infix_of_fits he (List.take_prefix _ _) (by rwa [hwindow]))
    simp only [hl, if_false]

/-- A byte string begins with a line, ends before one does, or has none within the window. -/
theorem line_cases (window : Nat) (bytes : Bytes) :
    (∃ line rest, LineAt window bytes line rest) ∨
      Unended window bytes ∨ Overlong window bytes := by
  cases hc : cutAt crlf bytes with
  | none =>
    have hn := (cutAt_eq_none_iff (by decide)).1 hc
    rcases Nat.lt_or_ge bytes.length window with hl | hl
    · exact .inr (.inl ⟨hn, hl⟩)
    · exact .inr (.inr ⟨fun hi => hn (hi.trans (List.take_prefix _ _).isInfix), hl⟩)
  | some cut =>
    obtain ⟨line, rest⟩ := cut
    obtain ⟨he, hn⟩ := (cutAt_pair_eq_some_iff (by decide)).1 hc
    by_cases hf : line.length + 2 ≤ window
    · exact .inl ⟨line, rest, by simp [he, crlf], hn, hf⟩
    · refine .inr (.inr ⟨fun hi => ?_, ?_⟩)
      · -- the window ends before the line feed, so its last byte is at most the carriage return
        have hp : bytes.take window <+: line ++ [13] := by
          rw [he, show line ++ 13 :: 10 :: rest = line ++ [13] ++ 10 :: rest by simp,
            List.take_append_of_le_length (by simp; omega)]
          exact List.take_prefix _ _
        rcases Plain.crlf_infix_concat (hi.trans hp.isInfix) with hl | ⟨hb, -⟩
        · exact hn hl
        · exact absurd hb (by decide)
      · rw [he, List.length_append, List.length_cons, List.length_cons]
        omega

/-! ### Every byte string is judged -/

theorem toList_latin1 (line : Bytes) : (latin1 line).toList = line.map latin1Char :=
  String.toList_ofList

theorem requestLine_cases (line : Bytes) :
    (∃ verb target protocol, RequestLine line verb target protocol) ∨
      (latin1 line).toList.count ' ' < 2 := by
  cases hv : cut ' ' (latin1 line).toList with
  | none =>
    have hn := cut_eq_none_iff.1 hv
    exact .inr (by rw [List.count_eq_zero.2 hn]; decide)
  | some parts =>
    obtain ⟨verb, after⟩ := parts
    obtain ⟨he, hverb⟩ := cut_eq_some_iff.1 hv
    cases ht : cutLast ' ' after with
    | none =>
      have hn := cutLast_eq_none_iff.1 ht
      refine .inr ?_
      rw [he, List.count_append, List.count_cons_self, List.count_eq_zero.2 hverb,
        List.count_eq_zero.2 hn]
      decide
    | some parts =>
      obtain ⟨target, protocol⟩ := parts
      obtain ⟨rfl, hprotocol⟩ := cutLast_eq_some_iff.1 ht
      refine .inl ⟨.ofList verb, .ofList target, .ofList protocol, ?_, ?_, ?_⟩
      · rw [← String.toList_inj, he]
        simp
      · simpa using hverb
      · simpa using hprotocol

theorem headerLine_cases (line : Bytes) :
    (∃ name value, HeaderLine line name value) ∨ ¬ [':', ' '] <:+: (latin1 line).toList := by
  cases hc : cutAt [':', ' '] (latin1 line).toList with
  | none => exact .inr ((cutAt_eq_none_iff (by decide)).1 hc)
  | some parts =>
    obtain ⟨name, value⟩ := parts
    obtain ⟨he, hn⟩ := (cutAt_pair_eq_some_iff (by decide)).1 hc
    refine .inl ⟨.ofList name, .ofList value, ?_, ?_⟩
    · rw [← String.toList_inj, he]
      simp
    · simpa using hn

theorem fields_cases (window : Nat) (bytes : Bytes) :
    ∃ fields rest, Fields window bytes fields rest ∧
      (Unended window rest ∨ Overlong window rest ∨ ∃ line after,
        LineAt window rest line after ∧ ¬ [':', ' '] <:+: (latin1 line).toList) := by
  -- on the number of bytes, as every header line takes some
  induction h : bytes.length using Nat.strongRecOn generalizing bytes with
  | ind n ih =>
    subst h
    rcases line_cases window bytes with ⟨line, after, hl⟩ | hn | ho
    · rcases headerLine_cases line with ⟨name, value, hh⟩ | hu
      · have hlt : after.length < bytes.length := by
          rw [hl.eq, List.length_append, List.length_append]
          have : crlf.length = 2 := rfl
          omega
        obtain ⟨fields, rest, hf, hend⟩ := ih after.length hlt after rfl
        exact ⟨(name, value) :: fields, rest, .cons hl hh hf, hend⟩
      · exact ⟨[], bytes, .nil bytes, .inr (.inr ⟨line, after, hl, hu⟩)⟩
    · exact ⟨[], bytes, .nil bytes, .inl hn⟩
    · exact ⟨[], bytes, .nil bytes, .inr (.inl ho)⟩

theorem announces_cases (fields : List (String × String)) :
    (∃ n, Announces fields n) ∨ ∃ raw, lastValue? "content-length" fields = some raw ∧
      intUpTo? maxInt64 (trim raw) = none := by
  cases hv : lastValue? "content-length" fields with
  | none => exact .inl ⟨0, .inl ⟨hv, rfl⟩⟩
  | some raw =>
    cases hk : intUpTo? maxInt64 (trim raw) with
    | none => exact .inr ⟨raw, rfl, hk⟩
    | some k => exact .inl ⟨k.toNat, .inr ⟨raw, k, hv, hk, rfl⟩⟩

/-- **Something becomes** of every byte string. -/
theorem judged_total (limit window : Nat) (ends : Bool) (bytes : Bytes) :
    ∃ outcome rest, Judged limit window ends bytes outcome rest := by
  -- the first line, the header lines, the empty line, the length, the body, the method
  rcases line_cases window bytes with ⟨line, after, hl⟩ | hn | ho
  · rcases requestLine_cases line with ⟨verb, target, protocol, hr⟩ | hs
    · obtain ⟨fields, rest, hf, hend⟩ := fields_cases window after
      have opened : Opened window bytes verb target protocol fields rest :=
        ⟨line, after, hl, hr, hf⟩
      rcases hend with hn | ho | ⟨line', after', hl', hu⟩
      · exact ⟨_, _, .endsInHead opened hn⟩
      · exact ⟨_, _, .headerTooLong opened ho⟩
      · by_cases he : line' = []
        · subst he
          rcases announces_cases fields with ⟨n, ha⟩ | ⟨raw, hv, hi⟩
          · rcases Nat.lt_or_ge after'.length n with hshort | henough
            · exact ⟨_, _, .bodyCutShort opened hl' ha hshort⟩
            · cases hm : Method.ofName? (methodName verb fields) with
              | none => exact ⟨_, _, .unknownMethod opened hl' ha henough hm⟩
              | some m => exact ⟨_, _, .request opened hl' ha henough hm⟩
          · exact ⟨_, _, .invalidLength opened hl' hv hi⟩
        · exact ⟨_, _, .malformedHeader opened hl' he hu⟩
    · exact ⟨_, _, .noRequestLine hl hs⟩
  · exact ⟨_, _, .noLine hn⟩
  · exact ⟨_, _, .lineTooLong ho⟩

/-! ### A request is judged by its own bytes -/

theorem LineAt.alone (h : LineAt window bytes line rest) (more : Bytes) :
    LineAt window (line ++ crlf ++ more) line more :=
  ⟨rfl, h.first, h.fits⟩

theorem Fields.alone {fields : List (String × String)} (h : Fields window bytes fields rest) :
    ∃ head, bytes = head ++ rest ∧ ∀ more, Fields window (head ++ more) fields more := by
  induction h with
  | nil bytes => exact ⟨[], rfl, .nil⟩
  | @cons bytes line after rest name value fields hl hh _ ih =>
    obtain ⟨head, rfl, ha⟩ := ih
    refine ⟨line ++ crlf ++ head, by simp [hl.eq], fun more => ?_⟩
    rw [List.append_assoc _ head]
    exact .cons (hl.alone _) hh (ha more)

theorem Opened.alone {verb target protocol : String} {fields : List (String × String)}
    (h : Opened window bytes verb target protocol fields rest) :
    ∃ head, bytes = head ++ rest ∧
      ∀ more, Opened window (head ++ more) verb target protocol fields more := by
  obtain ⟨line, after, hl, hr, hf⟩ := h
  obtain ⟨head, rfl, ha⟩ := hf.alone
  refine ⟨line ++ crlf ++ head, by simp [hl.eq], fun more => ?_⟩
  rw [List.append_assoc _ head]
  exact ⟨line, head ++ more, hl.alone _, hr, ha more⟩

theorem judged_request_iff {r : Request} :
    Judged limit window ends bytes (.ok (some r)) rest ↔
      ∃ verb fields blank after n, Opened window bytes verb r.target r.protocol fields blank ∧
        LineAt window blank [] after ∧ Announces fields n ∧ n ≤ after.length ∧
        Method.ofName? (methodName verb fields) = some r.method ∧
        r.headers = .collapsed fields ∧ r.body = after.take n ∧ rest = after.drop n := by
  constructor
  · intro h
    generalize hout : (Except.ok (some r) : Except (Halt Error) (Option Request)) = out at h
    -- every other judgement has another outcome
    cases h with
    | request opened hb ha he hk =>
      cases hout
      exact ⟨_, _, _, _, _, opened, hb, ha, he, hk, rfl, rfl, rfl⟩
    | noLine _ => cases ends <;> cases hout
    | endsInHead _ _ => cases ends <;> cases hout
    | bodyCutShort _ _ _ _ => cases ends <;> cases hout
    | _ => cases hout
  · rintro ⟨verb, fields, blank, after, n, opened, hb, ha, he, hk, hh, hbody, rfl⟩
    have hj : Judged limit window ends bytes _ _ := .request opened hb ha he hk
    rwa [← hh, ← hbody] at hj

/-- **What follows a request has no part in it**: in front of anything else its bytes are the
same request. -/
theorem Judged.alone {r : Request} (h : Judged limit window ends bytes (.ok (some r)) rest) :
    ∃ heard, bytes = heard ++ rest ∧ heard ≠ [] ∧
      ∀ ends more, Judged limit window ends (heard ++ more) (.ok (some r)) more := by
  obtain ⟨verb, fields, blank, after, n, opened, hb, ha, he, hk, hh, hbody, rfl⟩ :=
    judged_request_iff.1 h
  obtain ⟨head, rfl, hhead⟩ := opened.alone
  have hlen : (after.take n).length = n := List.length_take_of_le he
  refine ⟨head ++ crlf ++ after.take n, by simp [hb.eq], by simp [crlf], fun ends more => ?_⟩
  have hopened : Opened window (head ++ crlf ++ after.take n ++ more) verb r.target r.protocol
      fields (crlf ++ (after.take n ++ more)) := by
    have := hhead (crlf ++ (after.take n ++ more))
    simpa using this
  refine judged_request_iff.2 ⟨verb, fields, _, after.take n ++ more, n, hopened,
    hb.alone _, ha, ?_, hk, hh, ?_, ?_⟩
  · rw [List.length_append, hlen]
    omega
  -- the body is the same, and what follows it is all that is left
  · rw [hbody, List.take_append_of_le_length (Nat.le_of_eq hlen.symm), List.take_take,
      Nat.min_self]
  · rw [List.drop_append_of_le_length (Nat.le_of_eq hlen.symm), List.drop_take_self,
      List.nil_append]

/-- A line that is too long is given up **only after the whole window**. -/
theorem Judged.length_of_too_long
    (h : Judged limit window ends bytes (.error ((Link.lineFault limit).map .io)) rest) :
    rest.length + window ≤ bytes.length := by
  generalize hout : (Except.error ((Link.lineFault limit).map .io) :
    Except (Halt Error) (Option Request)) = out at h
  cases h with
  | lineTooLong ho =>
    have := ho.long
    rw [List.length_drop]
    omega
  | headerTooLong opened ho =>
    obtain ⟨head, rfl, -⟩ := opened.alone
    have := ho.long
    rw [List.length_drop, List.length_append]
    omega
  -- no other judgement has this outcome
  | _ =>
    rcases Link.lineFault_cases limit with hfault | hfault <;> cases ends <;>
      simp [hfault, Halt.map, starved] at hout

theorem LineAt.ne_nil (h : LineAt window bytes line rest) : bytes ≠ [] := by
  rw [h.eq]
  simp [crlf]

theorem judged_nil_iff {outcome : Except (Halt Error) (Option Request)} (hw : 0 < window) :
    Judged limit window true [] outcome rest ↔ outcome = .ok none ∧ rest = [] := by
  constructor
  · intro h
    have unopened : ∀ {verb target protocol fields rest},
        ¬ Opened window [] verb target protocol fields rest :=
      fun ⟨_, _, hl, _⟩ => hl.ne_nil rfl
    -- all but the first two judgements need a line
    cases h with
    | noLine _ => exact ⟨rfl, rfl⟩
    | lineTooLong ho => exact absurd ho.long (Nat.not_le.2 hw)
    | noRequestLine hl _ => exact absurd rfl hl.ne_nil
    | endsInHead opened _ => exact absurd opened unopened
    | headerTooLong opened _ => exact absurd opened unopened
    | malformedHeader opened _ _ _ => exact absurd opened unopened
    | invalidLength opened _ _ _ => exact absurd opened unopened
    | bodyCutShort opened _ _ _ => exact absurd opened unopened
    | unknownMethod opened _ _ _ _ => exact absurd opened unopened
    | request opened _ _ _ _ => exact absurd opened unopened
  · rintro ⟨rfl, rfl⟩
    exact .noLine ⟨by decide, hw⟩

end HttpEngine
