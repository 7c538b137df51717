import HttpEngine.Proofs.Message.Reply
import HttpEngine.Proofs.Text.Pairs

/-!
# The lines of a head

A head is written from texts that were stored as they came, so a carriage return and line feed in
one of them ends a line. **Without one the head has the lines it was written from and no others.**

* `Text.linesOf`: the lines of bytes.
* `Response.headTexts`: what a head is written from, a text for each line.
* `Response.linesOf_head`: the lines of a head, whatever its texts are.
* `Response.aligned_iff_unsplit`: when there is a line for each text, **exactly**.
* `CookieStore.unsplit_after`, `Response.unsplit_build`: what handlers store ends a line only where
  a text that they were given does.
* `Response.head_parted`: **the lines of a head**.
-/

namespace HttpEngine

open Text

namespace Text

/-- The lines of bytes: what stands **between the ends of lines**, empty lines included. -/
def linesOf : Bytes → List Bytes
  | [] => [[]]
  | 13 :: 10 :: rest => [] :: linesOf rest
  | b :: rest =>
    match linesOf rest with
    | [] => [[b]]
    | line :: lines => (b :: line) :: lines

theorem linesOf_ne_nil (bytes : Bytes) : linesOf bytes ≠ [] := by
  fun_cases linesOf bytes with
  | case1 => exact List.cons_ne_nil _ _
  | case2 rest => exact List.cons_ne_nil _ _
  | case3 b rest h he => exact List.cons_ne_nil _ _
  | case4 b rest h line lines he => exact List.cons_ne_nil _ _

/-- An end of a line **parts the lines** before it from those after it. -/
theorem linesOf_append (bytes more : Bytes) :
    linesOf (bytes ++ crlf ++ more) = linesOf bytes ++ linesOf more := by
  fun_induction linesOf bytes with
  | case1 => rfl
  | case2 rest ih => exact congrArg ([] :: ·) ih
  | case3 b rest h he => exact absurd he (linesOf_ne_nil rest)
  | case4 b rest h line lines he ih =>
    have hnext : ∀ tail, b = 13 → rest ++ crlf ++ more = 10 :: tail → False := by
      intro tail hb htail
      cases rest with
      -- the end of the line begins with a carriage return, not with a line feed
      | nil => cases htail
      | cons a rest => exact h rest hb (by rw [(List.cons.inj htail).1])
    rw [he] at ih
    show linesOf (b :: (rest ++ crlf ++ more)) = _
    rw [linesOf.eq_3 _ _ hnext, ih]
    rfl

/-- Bytes are **one line** where no line ends in them. -/
theorem linesOf_of_unbroken {bytes : Bytes} (h : ¬ crlf <:+: bytes) : linesOf bytes = [bytes] := by
  fun_induction linesOf bytes with
  | case1 => rfl
  | case2 rest ih => exact absurd ⟨[], rest, rfl⟩ h
  | case3 b rest hb he => exact absurd he (linesOf_ne_nil rest)
  | case4 b rest hb line lines he ih =>
    have := ih fun hi => h (List.infix_cons_iff.2 (.inr hi))
    rw [he, List.cons.injEq] at this
    rw [this.1, this.2]

/-- Where a line ends there are **more lines than one**. -/
theorem one_lt_length_linesOf {bytes : Bytes} (h : crlf <:+: bytes) :
    1 < (linesOf bytes).length := by
  obtain ⟨before, behind, rfl⟩ := h
  rw [linesOf_append, List.length_append]
  have hbefore := List.length_pos_of_ne_nil (linesOf_ne_nil before)
  have hbehind := List.length_pos_of_ne_nil (linesOf_ne_nil behind)
  omega

/-- A text has **one line as bytes** exactly where no line ends in it. -/
theorem crlf_infix_utf8_iff {s : String} : crlf <:+: utf8 s ↔ ¬ Unbroken s := by
  rw [Unbroken, not_not]
  constructor
  · exact crlf_infix_of_utf8
  · rintro ⟨before, behind, he⟩
    refine ⟨utf8 (String.ofList before), utf8 (String.ofList behind), ?_⟩
    have hs : s = String.ofList before ++ "\r\n" ++ String.ofList behind := by
      rw [← String.toList_inj, ← he]
      simp
    rw [hs, utf8_append, utf8_append, utf8_crlf]

variable {s t u : String}

theorem Unbroken.of_part (h : Unbroken t) (hst : s.toList <:+: t.toList) : Unbroken s :=
  fun hi => h (hi.trans hst)

/-- A text is unbroken **only where its parts are**, whatever stands between them. -/
theorem Unbroken.parts (h : Unbroken (s ++ t ++ u)) : Unbroken s ∧ Unbroken u := by
  refine ⟨h.of_part ?_, h.of_part ?_⟩
  · simp only [String.toList_append, List.append_assoc]
    exact (List.prefix_append _ _).isInfix
  · simp only [String.toList_append]
    exact (List.suffix_append _ _).isInfix

end Text

/-- No name and no value **ends a line**. -/
def Named.Unsplit (entries : List (String × String)) : Prop :=
  ∀ e ∈ entries, Unbroken e.1 ∧ Unbroken e.2

namespace Response

/-! ### What a head is written from -/

/-- The cookies written back, **if the store was touched**, a text for each. -/
def cookieTexts : Option CookieStore → List String
  | some store =>
    if store.touched then store.entries.map fun e => "Set-Cookie: " ++ e.1 ++ "=" ++ e.2 else []
  | none => []

/-- What a head is written from, **a text for each line**: the status, the headers and the
cookies. -/
def headTexts (r : Response) (cookies : Option CookieStore) : List String :=
  ("HTTP/1.1 " ++ r.status.text) :: r.headers.entries.map (fun e => e.1 ++ ": " ++ e.2)
    ++ cookieTexts cookies

/-- A text as a line of a head. -/
def lineOf (text : String) : Bytes := utf8 text ++ crlf

theorem utf8_ended (text : String) : utf8 (text ++ "\r\n") = lineOf text := by
  rw [utf8_append]
  exact congrArg (utf8 text ++ ·) utf8_crlf

theorem utf8_join (texts : List String) : utf8 (String.join texts) = texts.flatMap utf8 := by
  induction texts with
  | nil => rfl
  | cons text texts ih => rw [String.join_cons, utf8_append, ih, List.flatMap_cons]

theorem utf8_cookieData (s : CookieStore) :
    utf8 s.cookieData
      = (s.entries.map fun e => "Set-Cookie: " ++ e.1 ++ "=" ++ e.2).flatMap lineOf := by
  rw [CookieStore.cookieData, utf8_join, List.flatMap_map, List.flatMap_map]
  exact List.flatMap_congr fun e _ => utf8_ended _

theorem utf8_cookieLines (cookies : Option CookieStore) :
    utf8 (cookieLines cookies) = (cookieTexts cookies).flatMap lineOf := by
  unfold cookieLines cookieTexts
  cases cookies with
  | none => rfl
  | some store =>
    by_cases htouched : store.touched = true
    · simp only [htouched, if_true, utf8_cookieData]
    · simp only [htouched]
      rfl

/-- A head is **a line for each text**, and an empty line. -/
theorem utf8_head (r : Response) (cookies : Option CookieStore) :
    utf8 (r.head cookies) = (r.headTexts cookies).flatMap lineOf ++ crlf := by
  have hstatus : utf8 r.statusLine = lineOf ("HTTP/1.1 " ++ r.status.text) := utf8_ended _
  have hheaders : utf8 (String.join (r.headers.entries.map headerLine))
      = (r.headers.entries.map fun e => e.1 ++ ": " ++ e.2).flatMap lineOf := by
    rw [utf8_join, List.flatMap_map, List.flatMap_map]
    exact List.flatMap_congr fun e _ => utf8_ended _
  rw [head, utf8_append, utf8_append, utf8_append, hstatus, hheaders, utf8_cookieLines, utf8_crlf,
    headTexts, List.cons_append, List.flatMap_cons, List.flatMap_append]
  simp only [List.append_assoc]

theorem mem_cookieTexts {cookies : Option CookieStore} {text : String} :
    text ∈ cookieTexts cookies ↔ ∃ store ∈ cookies, store.touched = true ∧
      ∃ e ∈ store.entries, "Set-Cookie: " ++ e.1 ++ "=" ++ e.2 = text := by
  cases cookies with
  | none => simp [cookieTexts]
  | some store => simp [cookieTexts]

theorem mem_headTexts {r : Response} {cookies : Option CookieStore} {text : String} :
    text ∈ r.headTexts cookies ↔ text = "HTTP/1.1 " ++ r.status.text
      ∨ (∃ e ∈ r.headers.entries, e.1 ++ ": " ++ e.2 = text) ∨ text ∈ cookieTexts cookies := by
  rw [headTexts, List.mem_append, List.mem_cons, List.mem_map, or_assoc]

/-! ### Its lines -/

theorem linesOf_flatMap (texts : List String) (rest : Bytes) :
    linesOf (texts.flatMap lineOf ++ rest) = texts.flatMap (linesOf ∘ utf8) ++ linesOf rest := by
  induction texts with
  | nil => rfl
  | cons text texts ih =>
    rw [List.flatMap_cons, List.flatMap_cons, lineOf, List.append_assoc, List.append_assoc,
      ← List.append_assoc, linesOf_append, ih, List.append_assoc]
    rfl

/-- Texts in which no line ends have **one line each**. -/
theorem flatMap_linesOf {texts : List String} (h : ∀ text ∈ texts, Unbroken text) :
    texts.flatMap (linesOf ∘ utf8) = texts.map utf8 := by
  rw [List.map_eq_flatMap]
  refine List.flatMap_congr fun text htext => ?_
  exact linesOf_of_unbroken fun hi => crlf_infix_utf8_iff.1 hi (h text htext)

/-- **The lines of a head** are those of its texts, and the empty one that ends it, with nothing
behind that. -/
theorem linesOf_head (r : Response) (cookies : Option CookieStore) :
    linesOf (utf8 (r.head cookies))
      = (r.headTexts cookies).flatMap (linesOf ∘ utf8) ++ [[], []] := by
  rw [utf8_head, linesOf_flatMap]
  rfl

/-- Each text of a head **is one line of it**, and the first empty line is the one that ends it. -/
structure Aligned (r : Response) (cookies : Option CookieStore) : Prop where
  lines : linesOf (utf8 (r.head cookies)) = (r.headTexts cookies).map utf8 ++ [[], []]
  filled : ∀ text ∈ r.headTexts cookies, utf8 text ≠ []

/-- Nothing that is stored **ends a line**. -/
structure Unsplit (r : Response) (cookies : Option CookieStore) : Prop where
  headers : Named.Unsplit r.headers.entries
  cookies : ∀ store ∈ cookies, store.touched = true → Named.Unsplit store.entries

variable {r : Response} {cookies : Option CookieStore}

theorem unbroken_cookieText {name value : String} (hname : Unbroken name)
    (hvalue : Unbroken value) : Unbroken ("Set-Cookie: " ++ name ++ "=" ++ value) := by
  have hset : Unbroken "Set-Cookie:" := by decide
  have he : "Set-Cookie: " ++ name = "Set-Cookie:" ++ ' '.toString ++ name := by
    rw [← String.toList_inj]
    simp
  rw [he]
  exact (hset.join hname ' ' (by decide) (by decide)).join hvalue '=' (by decide) (by decide)

/-- The texts of a head are unbroken **exactly where what is stored is**. -/
theorem unsplit_iff :
    r.Unsplit cookies ↔ ∀ text ∈ r.headTexts cookies, Unbroken text := by
  constructor
  · intro h text htext
    rcases mem_headTexts.1 htext with rfl | ⟨e, he, rfl⟩ | hcookie
    · exact (Reply.status?_of_status r.status).1
    · exact (h.headers e he).1.join_colon (h.headers e he).2
    · obtain ⟨store, hstore, htouched, e, he, rfl⟩ := mem_cookieTexts.1 hcookie
      obtain ⟨hname, hvalue⟩ := h.cookies store hstore htouched e he
      exact unbroken_cookieText hname hvalue
  · intro h
    refine ⟨fun e he => ?_, fun store hstore htouched e he => ?_⟩
    · exact (h _ (mem_headTexts.2 (.inr (.inl ⟨e, he, rfl⟩)))).parts
    · have hcookie := mem_cookieTexts.2 ⟨store, hstore, htouched, e, he, rfl⟩
      obtain ⟨hname, hvalue⟩ := (h _ (mem_headTexts.2 (.inr (.inr hcookie)))).parts
      refine ⟨hname.of_part ?_, hvalue⟩
      rw [String.toList_append]
      exact (List.suffix_append _ _).isInfix

theorem filled_headTexts (r : Response) (cookies : Option CookieStore) :
    ∀ text ∈ r.headTexts cookies, utf8 text ≠ [] := by
  -- each of them holds a colon or a space of its own
  have hjoined : ∀ s t u : String, utf8 t ≠ [] → utf8 (s ++ t ++ u) ≠ [] := by
    intro s t u ht hnil
    rw [utf8_append, utf8_append] at hnil
    exact ht (List.append_eq_nil_iff.1 (List.append_eq_nil_iff.1 hnil).1).2
  intro text htext
  rcases mem_headTexts.1 htext with rfl | ⟨e, -, rfl⟩ | hcookie
  · intro hnil
    rw [utf8_append] at hnil
    exact absurd (List.append_eq_nil_iff.1 hnil).1 (by decide)
  · exact hjoined _ _ _ (by decide)
  · obtain ⟨store, -, -, e, -, rfl⟩ := mem_cookieTexts.1 hcookie
    exact hjoined _ _ _ (by decide)

/-- Where there are as many lines as texts, **no text has more lines than one**. -/
theorem unbroken_of_length {texts : List String}
    (h : (texts.flatMap (linesOf ∘ utf8)).length ≤ texts.length) :
    ∀ text ∈ texts, Unbroken text := by
  have hle : ∀ texts : List String, texts.length ≤ (texts.flatMap (linesOf ∘ utf8)).length := by
    intro texts
    induction texts with
    | nil => exact Nat.zero_le _
    | cons text texts ih =>
      have hpos := List.length_pos_of_ne_nil (linesOf_ne_nil (utf8 text))
      simp only [List.flatMap_cons, List.length_append, List.length_cons, Function.comp_apply]
      omega
  induction texts with
  | nil => exact nofun
  | cons text texts ih =>
    have hpos := List.length_pos_of_ne_nil (linesOf_ne_nil (utf8 text))
    have hrest := hle texts
    simp only [List.flatMap_cons, List.length_append, List.length_cons, Function.comp_apply] at h
    intro t ht
    rcases List.mem_cons.1 ht with rfl | ht
    · by_contra hbroken
      have := one_lt_length_linesOf (crlf_infix_utf8_iff.2 hbroken)
      omega
    · exact ih (by omega) t ht

/-- A head has a line for each text, **exactly where nothing that is stored ends a line**. -/
theorem aligned_iff_unsplit : r.Aligned cookies ↔ r.Unsplit cookies := by
  rw [unsplit_iff]
  constructor
  · intro h
    have hlines := congrArg List.length ((r.linesOf_head cookies).symm.trans h.lines)
    rw [List.length_append, List.length_append, List.length_map] at hlines
    exact unbroken_of_length (Nat.le_of_eq (Nat.add_right_cancel hlines))
  · intro h
    exact ⟨by rw [linesOf_head, flatMap_linesOf h], r.filled_headTexts cookies⟩

end Response

/-! ### What handlers store -/

namespace Named

variable {name value : String} {entries : List (String × String)}

/-- What holds of each name and each value holds of them **after something is put among them**. -/
theorem forall_put {P Q : String → Prop} (h : ∀ e ∈ entries, P e.1 ∧ Q e.2) (hname : P name)
    (hvalue : Q value) : ∀ e ∈ put name value entries, P e.1 ∧ Q e.2 := by
  induction entries with
  | nil => exact fun _ he => List.mem_singleton.1 he ▸ ⟨hname, hvalue⟩
  | cons e rest ih =>
    obtain ⟨hfirst, hrest⟩ := List.forall_mem_cons.1 h
    rw [put]
    split
    · exact List.forall_mem_cons.2 ⟨⟨hfirst.1, hvalue⟩, hrest⟩
    · exact List.forall_mem_cons.2 ⟨hfirst, ih hrest⟩

theorem Unsplit.concat (h : Unsplit entries) (hname : Unbroken name) (hvalue : Unbroken value) :
    Unsplit (entries ++ [(name, value)]) :=
  List.forall_mem_append.2 ⟨h, fun _ he => List.mem_singleton.1 he ▸ ⟨hname, hvalue⟩⟩

end Named

namespace CookieStore

/-- What a handler **does to the cookies** of a request. -/
inductive Edit
  | upsert (name value : String)
  | remove (name : String)

/-- The cookies after one edit more. -/
def edit (s : CookieStore) : Edit → CookieStore
  | .upsert name value => s.upsert name value
  | .remove name => (s.remove name).2

/-- An edit stores nothing that **ends a line**. -/
def Edit.Unbroken : Edit → Prop
  | .upsert name value => Text.Unbroken name ∧ Text.Unbroken value
  | .remove _ => True

instance : (e : Edit) → Decidable e.Unbroken
  | .upsert name value => inferInstanceAs (Decidable (Text.Unbroken name ∧ Text.Unbroken value))
  | .remove _ => inferInstanceAs (Decidable True)

/-- The cookies that a header and then a handler **leave**. -/
def after (header : String) (edits : List Edit) : CookieStore := edits.foldl edit (parse header)

/-- The names and values **in a cookie header**, repeated ones too. -/
theorem filterMap_pairOf? (ps : List (List Char)) :
    ps.filterMap pairOf? = (ps.filterMap (pairIn? isBlank '=')).map fun e =>
      (String.ofList e.1, String.ofList e.2) := by
  rw [List.map_filterMap]
  refine List.filterMap_congr fun piece _ => ?_
  -- blanks around the piece are dropped first, which changes nothing
  rw [← pairIn?_trimBy (by decide) piece, pairOf?, pairIn?, Option.map_map]
  rfl

variable {header : String} {edits : List Edit} {P Q : String → Prop}

/-- A cookie is **a part of its header**, without the blanks around it. -/
theorem parts_of_mem_pairOf? {e : String × String}
    (h : e ∈ (pieces ';' header.toList).filterMap pairOf?) :
    (e.1.toList <:+: header.toList ∧ e.2.toList <:+: header.toList) ∧
      (';' ∉ e.1.toList ∧ '=' ∉ e.1.toList ∧ ';' ∉ e.2.toList) ∧
      trim e.1 = e.1 ∧ trim e.2 = e.2 := by
  rw [filterMap_pairOf?] at h
  obtain ⟨⟨name, value⟩, hmem, rfl⟩ := List.mem_map.1 h
  obtain ⟨hparts, hsigns, hname, hvalue⟩ := parts_of_mem_pairs hmem
  simp only [trim, String.toList_ofList, trimChars_eq]
  exact ⟨hparts, hsigns, congrArg String.ofList hname, congrArg String.ofList hvalue⟩

/-- What holds of each name and each value **that the header or an edit brings** holds of all that
are stored. -/
theorem forall_after
    (hheader : ∀ e ∈ (pieces ';' header.toList).filterMap pairOf?, P e.1 ∧ Q e.2)
    (hedits : ∀ name value, Edit.upsert name value ∈ edits → P name ∧ Q value) :
    ∀ e ∈ (after header edits).entries, P e.1 ∧ Q e.2 := by
  have hparsed : ∀ e ∈ (parse header).entries, P e.1 ∧ Q e.2 := by
    refine List.foldlRecOn _ _
      (motive := fun es : List (String × String) => ∀ e ∈ es, P e.1 ∧ Q e.2)
      (fun _ he => absurd he List.not_mem_nil) fun es hes e he => ?_
    exact Named.forall_put hes (hheader e he).1 (hheader e he).2
  refine List.foldlRecOn edits edit (motive := fun s => ∀ e ∈ s.entries, P e.1 ∧ Q e.2)
    hparsed fun s hs e he => ?_
  cases e with
  | upsert name value =>
    obtain ⟨hname, hvalue⟩ := hedits name value he
    exact Named.forall_put hs hname hvalue
  | remove name => exact fun f hf => hs f (List.mem_of_mem_filter hf)

/-- Cookies **end no line** unless the header or an edit brings a text that does. -/
theorem unsplit_after (h : Text.Unbroken header) (hedits : ∀ e ∈ edits, e.Unbroken) :
    Named.Unsplit (after header edits).entries := by
  refine forall_after ?_ fun name value hmem => hedits _ hmem
  intro e he
  obtain ⟨⟨hname, hvalue⟩, -⟩ := parts_of_mem_pairOf? he
  exact ⟨h.of_part hname, h.of_part hvalue⟩

end CookieStore

namespace Response

/-- A step stores nothing that **ends a line**. -/
def Step.Unbroken : Step → Prop
  | .header name value => Text.Unbroken name ∧ Text.Unbroken value
  | .body _ => True
  | .close _ => True

instance : (s : Step) → Decidable s.Unbroken
  | .header name value => inferInstanceAs (Decidable (Text.Unbroken name ∧ Text.Unbroken value))
  | .body _ => inferInstanceAs (Decidable True)
  | .close _ => inferInstanceAs (Decidable True)

/-- The headers of a response that was built **end no line** unless one of them brings a text that
does: the length that is added does not. -/
theorem unsplit_build {status : Status} {steps : List Step} (h : ∀ s ∈ steps, s.Unbroken) :
    Named.Unsplit (build status steps).headers.entries := by
  have htaken : Named.Unsplit
      (steps.foldl take { status, headers := {} : Response }).headers.entries := by
    refine List.foldlRecOn steps take (motive := fun r => Named.Unsplit r.headers.entries)
      ?_ fun r hr step hstep => ?_
    · exact fun _ he => absurd he List.not_mem_nil
    · have hunbroken := h step hstep
      cases step with
      | header name value => exact hr.concat hunbroken.1 hunbroken.2
      | body b => exact hr
      | close b => exact hr
  unfold build make
  dsimp only
  split
  · exact htaken
  · split
    · exact htaken.concat (by decide) (Outgoing.unbroken_toString _)
    · exact htaken

/-! ### The lines of a head -/

/-- Where no cookie that is written back ends a line, a head has **one line for the status**, those of
each header, one for each of these cookies, and the empty one that ends it. -/
theorem linesOf_head_of_cookies {r : Response} {cookies : Option CookieStore}
    (h : ∀ store ∈ cookies, store.touched = true → Named.Unsplit store.entries) :
    linesOf (utf8 (r.head cookies)) = utf8 ("HTTP/1.1 " ++ r.status.text) ::
      r.headers.entries.flatMap (fun e => linesOf (utf8 (e.1 ++ ": " ++ e.2)))
        ++ (cookieTexts cookies).map utf8 ++ [[], []] := by
  have hstatus : linesOf (utf8 ("HTTP/1.1 " ++ r.status.text))
      = [utf8 ("HTTP/1.1 " ++ r.status.text)] :=
    linesOf_of_unbroken fun hi => crlf_infix_utf8_iff.1 hi (Reply.status?_of_status r.status).1
  have hcookies : (cookieTexts cookies).flatMap (linesOf ∘ utf8) = (cookieTexts cookies).map utf8 := by
    refine flatMap_linesOf fun text htext => ?_
    obtain ⟨store, hstore, htouched, e, he, rfl⟩ := mem_cookieTexts.1 htext
    obtain ⟨hname, hvalue⟩ := h store hstore htouched e he
    exact unbroken_cookieText hname hvalue
  rw [linesOf_head, headTexts, List.cons_append, List.flatMap_cons, List.flatMap_append, hcookies,
    Function.comp_apply, hstatus, List.flatMap_map]
  simp only [List.cons_append, List.nil_append, List.append_assoc, Function.comp_apply]

/-- **A head has the lines that its texts have**, the status first, then the headers and then the
cookies of a touched store, and the empty one that ends it. Where no cookie ends a line there is one
line for each text, none of them empty, **exactly when no header ends a line**, and none does that was
built from texts that do not. -/
theorem head_parted (r : Response) (cookies : Option CookieStore)
    (hcookies : ∀ store ∈ cookies, store.touched = true → Named.Unsplit store.entries) :
    linesOf (utf8 (r.head cookies)) = utf8 ("HTTP/1.1 " ++ r.status.text) ::
        r.headers.entries.flatMap (fun e => linesOf (utf8 (e.1 ++ ": " ++ e.2)))
          ++ (cookieTexts cookies).map utf8 ++ [[], []]
      ∧ (r.Aligned cookies ↔ Named.Unsplit r.headers.entries)
      ∧ ∀ (status : Status) (steps : List Step) (header : String) (edits : List CookieStore.Edit),
          (∀ s ∈ steps, s.Unbroken) → Text.Unbroken header → (∀ e ∈ edits, e.Unbroken) →
          (build status steps).Aligned (some (CookieStore.after header edits)) := by
  refine ⟨linesOf_head_of_cookies hcookies, aligned_iff_unsplit.trans ?_,
    fun status steps header edits => ?_⟩
  · exact ⟨fun h => h.headers, fun h => ⟨h, hcookies⟩⟩
  · intro hsteps hheader hedits
    refine aligned_iff_unsplit.2 ⟨unsplit_build hsteps, fun store hstore _ => ?_⟩
    rw [← Option.some_inj.1 hstore]
    exact CookieStore.unsplit_after hheader hedits

/-- A response with a header more and cookies that a handler changed has **a line for each**. -/
theorem head_parted_built :
    Named.Unsplit (CookieStore.after "a=1; b=2" [.remove "a", .upsert "c" "3"]).entries ∧
      (build .ok [.header "X-A" "1", .body (.bytes (utf8 "hi"))]).Aligned
        (some (CookieStore.after "a=1; b=2" [.remove "a", .upsert "c" "3"])) := by
  have hunsplit : Named.Unsplit
      (CookieStore.after "a=1; b=2" [.remove "a", .upsert "c" "3"]).entries :=
    CookieStore.unsplit_after (by decide) (by decide)
  refine ⟨hunsplit, (head_parted _ (some _) fun store hstore _ => ?_).2.1.2 ?_⟩
  · rwa [← Option.some_inj.1 hstore]
  · exact unsplit_build (by decide)

/-- A header with a line end in its value makes **two lines**. -/
theorem not_aligned_broken :
    ¬ (build .ok [.header "X-A" "1\r\nX-B: 2", .body (.bytes (utf8 "hi"))]).Aligned none := by
  intro h
  have := (aligned_iff_unsplit.1 h).headers ("X-A", "1\r\nX-B: 2") (by decide)
  exact absurd this.2 (by decide)

end Response

end HttpEngine
