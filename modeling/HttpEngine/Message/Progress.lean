import HttpEngine.Message.Delivery
import HttpEngine.Message.Reception

/-!
# Requests use up what there is to read

* `Parser.available_parse`: a request that is received leaves **fewer bytes** to read.
* `Response.available_deliver`: sending a response leaves what there is to read alone.
-/

namespace HttpEngine

/-! ### Reading -/

namespace Link

theorem available_onWire_pause {ms : Nat} {l l' : Link}
    (h : onWire (Wire.pause ms) l = .ok () l') : l'.available = l.available := by
  obtain ⟨w, hp, rfl⟩ := onWire_eq_ok.1 h
  obtain ⟨w₀, w₀', hg, hp⟩ := Act.bind_eq_ok.1 hp
  cases hg
  simp only [available, Wire.inbound_await hp]

theorem available_bodyFrom {want remaining retries : Nat} {got bytes : Bytes} {l l' : Link}
    (h : bodyFrom want remaining retries got l = .ok bytes l') : l'.available ≤ l.available := by
  fun_induction bodyFrom want remaining retries got generalizing l with
  | case1 => cases h; exact Nat.le_refl _
  | case2 retries got n ihMore ihAgain =>
    obtain ⟨l₀, l₀', hg, h⟩ := Act.bind_eq_ok.1 h
    cases hg
    obtain ⟨more, l₁, hr, h⟩ := Act.bind_eq_ok.1 h
    have hp := pending_read hr
    have hle : l₁.available ≤ l.available := by
      simp only [available, hp.2]
      omega
    cases more with
    | cons b bytes => exact Nat.le_trans (ihMore _ b bytes h) hle
    | nil =>
      cases retries with
      | zero => cases h
      | succ k =>
        obtain ⟨u, l₂, hw, h⟩ := Act.bind_eq_ok.1 h
        have := available_onWire_pause hw
        exact Nat.le_trans (ihAgain h) (by omega)

/-- A body that is read leaves **at most** what there was to read. -/
theorem available_readBytes {count : Nat} {bytes : Bytes} {l l' : Link}
    (h : readBytes count l = .ok bytes l') : l'.available ≤ l.available := by
  unfold readBytes at h
  obtain ⟨l₀, l₀', hg, h⟩ := Act.bind_eq_ok.1 h
  cases hg
  split at h
  · cases h
    simp only [available, List.length_drop]
    omega
  · obtain ⟨u, l₁, hs, h⟩ := Act.bind_eq_ok.1 h
    cases hs
    refine Nat.le_trans (available_bodyFrom h) ?_
    simp only [available, List.length_nil]
    omega

theorem available_readBody {count : Nat} {bytes : Bytes} {l l' : Link}
    (h : readBody count l = .ok bytes l') : l'.available ≤ l.available := by
  unfold readBody at h
  obtain ⟨l₀, l₀', hg, h⟩ := Act.bind_eq_ok.1 h
  cases hg
  cases hs : l.readLeft.spend (count - l.unread.length) with
  | none =>
    simp only [hs] at h
    cases h
  | some left =>
    simp only [hs] at h
    exact available_readBytes h

theorem Act.task_eq_ok {α : Type} {act : Act α} {l l' : Link} {a : α} :
    Act.task act l = .ok a l' ↔ act l = .ok a l' := by
  unfold Act.task
  cases act l <;> simp

end Link

namespace Draft

theorem available_headersFrom {soFar headers : Headers} {l l' : Link}
    (h : headersFrom soFar l = .ok (some headers) l') : l'.available ≤ l.available := by
  fun_induction headersFrom soFar l with
  | case1 => cases h
  | case2 => cases h
  | case3 soFar l l₁ line hr hempty =>
    cases h
    exact Nat.le_of_lt (Link.available_readLine hr)
  | case4 => cases h
  | case5 soFar l l₁ line hr hempty name value hl ih =>
    exact Nat.le_trans (ih h) (Nat.le_of_lt (Link.available_readLine hr))

/-- A draft that is received **used up** at least its first line. -/
theorem available_receive {d : Draft} {l l' : Link} (h : receive l = .ok (some d) l') :
    l'.available < l.available := by
  unfold receive at h
  obtain ⟨line?, l₁, hl, h⟩ := Act.bind_eq_ok.1 h
  rw [Link.Act.task_eq_ok] at hl
  cases line? with
  | none => cases h
  | some line =>
    have h₁ := Link.available_readLine hl
    simp only at h
    cases hq : requestLine? (line.map Text.latin1Char) with
    | none =>
      simp only [hq] at h
      cases h
    | some parts =>
      simp only [hq] at h
      obtain ⟨headers?, l₂, hh, h⟩ := Act.bind_eq_ok.1 h
      cases headers? with
      | none => cases h
      | some headers =>
        have h₂ := available_headersFrom hh
        simp only at h
        cases ha : announcedLength headers with
        | error e =>
          simp only [ha] at h
          cases h
        | ok n =>
          simp only [ha] at h
          obtain ⟨body, l₃, hb, h⟩ := Act.bind_eq_ok.1 h
          rw [Link.Act.task_eq_ok] at hb
          have h₃ := Link.available_readBody hb
          cases h
          omega

end Draft

namespace Parser

/-- **A request that is received leaves fewer bytes to read.** -/
theorem available_parse {p : Parser} {l : Link} {r : Request}
    (h : (p.parse l).outcome = .ok (some r)) : (p.parse l).link.available < l.available := by
  induction p generalizing r with
  | plain verbs =>
    unfold parse at h ⊢
    cases hd : Draft.receive l with
    | error halt l' => simp [hd] at h
    | ok d? l' =>
      cases d? with
      | none => simp [hd] at h
      | some d =>
        have := Draft.available_receive hd
        simp only [hd] at h ⊢
        cases hv : verbs.provide d.verb with
        | mk found verbs' =>
          cases found with
          | error e => simp [hv] at h
          | ok m =>
            simp only
            exact this
  | overriding field inner verbs ih =>
    unfold parse at h ⊢
    cases hi : inner.parse l with
    | mk outcome inner' l' =>
      rw [hi] at ih
      cases outcome with
      | error e => simp [hi] at h
      | ok r? =>
        cases r? with
        | none => simp [hi] at h
        | some q =>
          have := ih rfl
          simp only [hi] at h ⊢
          cases hf : field.read q with
          | none => exact this
          | some name =>
            simp only [hf] at h ⊢
            cases hv : verbs.provide name with
            | mk found verbs' =>
              cases found with
              | error e => simp [hv] at h
              | ok m =>
                exact this

theorem available_of_parse {p p' : Parser} {l l' : Link} {r : Request}
    (h : p.parse l = ⟨.ok (some r), p', l'⟩) : l'.available < l.available := by
  have := available_parse (p := p) (l := l) (r := r) (by rw [h])
  rwa [h] at this

end Parser

/-! ### Writing -/

/-- Whether two states of a link have the same to read. -/
def Link.SameSupply (l l' : Link) : Prop :=
  l'.unread = l.unread ∧ l'.wire.inbound = l.wire.inbound

namespace Link

theorem SameSupply.refl (l : Link) : SameSupply l l := ⟨rfl, rfl⟩

theorem SameSupply.trans {l₁ l₂ l₃ : Link} (h : SameSupply l₁ l₂) (k : SameSupply l₂ l₃) :
    SameSupply l₁ l₃ :=
  ⟨k.1.trans h.1, k.2.trans h.2⟩

theorem SameSupply.available_eq {l l' : Link} (h : SameSupply l l') :
    l'.available = l.available := by
  simp [available, h.1, h.2]

theorem inbound_writeOut {waits : Bool} {bytes : Bytes} {w : Wire}
    (h : (writeOut waits bytes w).halt = none) :
    (writeOut waits bytes w).wire.inbound = w.inbound := by
  fun_induction writeOut waits bytes w with
  | case1 => rfl
  | case2 => rfl
  | case3 => cases h
  | case4 => cases h
  | case5 w b rest _ n w' hw ih =>
    rw [ih h]
    exact Wire.inbound_write hw

theorem same_spillOut {waits gone : Bool} {l l' : Link} (h : spillOut waits l = .ok gone l') :
    SameSupply l l' := by
  unfold spillOut at h
  cases hh : (writeOut waits l.held l.wire).halt with
  | some halt => simp [hh] at h
  | none =>
    simp only [hh] at h
    cases h
    exact ⟨rfl, inbound_writeOut hh⟩

theorem same_spill {l l' : Link} (h : spill l = .ok () l') : SameSupply l l' := by
  unfold spill at h
  obtain ⟨gone, l₁, hs, h⟩ := Act.bind_eq_ok.1 h
  cases h
  exact same_spillOut hs

theorem same_onWire_write {bytes : Bytes} {n : Nat} {l l' : Link}
    (h : onWire (Wire.write bytes) l = .ok n l') : SameSupply l l' := by
  obtain ⟨w, hw, rfl⟩ := onWire_eq_ok.1 h
  exact ⟨rfl, Wire.inbound_write hw⟩

theorem same_buffer {bytes : Bytes} {n : Nat} {l l' : Link} (h : buffer bytes l = .ok n l') :
    SameSupply l l' := by
  unfold buffer at h
  obtain ⟨l₀, l₀', hg, h⟩ := Act.bind_eq_ok.1 h
  cases hg
  have direct : ∀ {l₁ : Link},
      (if l.capacity ≤ bytes.length then onWire (Wire.write bytes)
        else do
          modify fun l => { l with held := l.held ++ bytes }
          return bytes.length : Act Nat) l₁ = .ok n l' → SameSupply l₁ l' := by
    intro l₁ h
    split at h
    · exact same_onWire_write h
    · cases h
      exact ⟨rfl, rfl⟩
  by_cases hc : l.capacity < l.held.length + bytes.length
  · simp only [hc, if_true] at h
    obtain ⟨u, l₁, hs, h⟩ := Act.bind_eq_ok.1 h
    exact (same_spill hs).trans (direct h)
  · simp only [hc, if_false] at h
    exact direct h

theorem same_write {bytes : Bytes} {n : Nat} {l l' : Link} (h : write bytes l = .ok n l') :
    SameSupply l l' := by
  unfold write at h
  obtain ⟨l₀, l₀', hg, h⟩ := Act.bind_eq_ok.1 h
  cases hg
  cases hs : l.writeLeft.spend bytes.length with
  | none =>
    simp only [hs] at h
    cases h
  | some left =>
    simp only [hs] at h
    obtain ⟨m, l₁, hb, h⟩ := Act.bind_eq_ok.1 h
    obtain ⟨l₂, l₂', hg, h⟩ := Act.bind_eq_ok.1 h
    cases hg
    cases hs₁ : l₁.writeLeft.spend m with
    | none =>
      simp only [hs₁] at h
      cases h
    | some left =>
      simp only [hs₁] at h
      cases h
      have hsame := same_buffer hb
      exact hsame

theorem same_writeAll {bytes : Bytes} {l l' : Link} (h : writeAll bytes l = .ok () l') :
    SameSupply l l' := by
  fun_induction writeAll bytes generalizing l with
  | case1 => cases h; exact .refl _
  | case2 b rest ih =>
    obtain ⟨n, l₁, hw, h⟩ := Act.bind_eq_ok.1 h
    cases n with
    | zero => cases h
    | succ n => exact (same_write hw).trans (ih n h)

theorem same_makeWay {begun clear : Bool} {count : Nat} {l l' : Link}
    (h : makeWay begun count l = .ok clear l') : SameSupply l l' := by
  unfold makeWay at h
  obtain ⟨l₀, l₀', hg, h⟩ := Act.bind_eq_ok.1 h
  cases hg
  split at h
  · exact same_spillOut h
  · cases h; exact .refl _

theorem same_offer {begun : Bool} {bytes : Bytes} {n? : Option Nat} {l l' : Link}
    (h : offer begun bytes l = .ok n? l') : SameSupply l l' := by
  unfold offer at h
  obtain ⟨l₀, l₀', hg, h⟩ := Act.bind_eq_ok.1 h
  cases hg
  cases hs : l.writeLeft.spend bytes.length with
  | none =>
    simp only [hs] at h
    cases h
  | some left =>
    simp only [hs] at h
    obtain ⟨clear, l₁, hp, h⟩ := Act.bind_eq_ok.1 h
    have hsame := same_makeWay hp
    obtain ⟨l₂, l₂', hg, h⟩ := Act.bind_eq_ok.1 h
    cases hg
    split at h
    · obtain ⟨n, l₃, hw, h⟩ := Act.bind_eq_ok.1 h
      cases h
      exact hsame.trans (same_write hw)
    · cases h
      exact hsame

theorem same_offerAll {begun : Bool} {bytes left : Bytes} {l l' : Link}
    (h : offerAll begun bytes l = .ok left l') : SameSupply l l' := by
  fun_induction offerAll begun bytes generalizing l with
  | case1 => cases h; exact .refl _
  | case2 begun b rest ih =>
    obtain ⟨n?, l₁, hw, h⟩ := Act.bind_eq_ok.1 h
    match n? with
    | none => cases h; exact same_offer hw
    | some 0 => cases h
    | some (n + 1) => exact (same_offer hw).trans (ih n h)

theorem same_pushBlock {begun : Bool} {b : Block}
    {c? : Option { c : Block // c.weight < b.weight }} {l l' : Link}
    (h : pushBlock begun b l = .ok c? l') : SameSupply l l' := by
  unfold pushBlock at h
  obtain ⟨left, l₁, ho, h⟩ := Act.bind_eq_ok.1 h
  refine (same_offerAll ho).trans ?_
  split at h
  · cases h; exact .refl _
  · split at h
    · cases h
    · split at h
      · obtain ⟨u, l₂, ha, h⟩ := Act.bind_eq_ok.1 h
        cases h
        obtain ⟨w, hw, rfl⟩ := onWire_eq_ok.1 ha
        exact ⟨rfl, Wire.inbound_awaitRoom hw⟩
      · obtain ⟨u, l₂, hs, h⟩ := Act.bind_eq_ok.1 h
        obtain ⟨u, l₃, hw, h⟩ := Act.bind_eq_ok.1 h
        cases h
        exact (same_spill hs).trans (same_writeAll hw)

theorem same_copyFrom {begun : Bool} {block : Block} {l l' : Link}
    (h : copyFrom begun block l = .ok () l') : SameSupply l l' := by
  fun_induction copyFrom begun block generalizing l with
  | case1 => cases h
  | case2 begun block b _ ihFuller ihNext =>
    obtain ⟨c?, l₁, hp, h⟩ := Act.bind_eq_ok.1 h
    refine (same_pushBlock hp).trans ?_
    match c? with
    | some ⟨c, hc⟩ => exact ihFuller c hc h
    | none =>
      simp only at h
      split at h
      · cases h; exact .refl _
      · split at h
        · obtain ⟨w, hw, rfl⟩ := onWire_eq_ok.1 h
          exact ⟨rfl, Wire.inbound_await hw⟩
        · rename_i hu
          exact ihNext hu h

theorem same_copy {s : Script} {l l' : Link} (h : copy s l = .ok () l') : SameSupply l l' :=
  same_copyFrom h

theorem same_send {l l' : Link} (h : send l = .ok () l') : SameSupply l l' := by
  unfold send at h
  obtain ⟨u, l₁, hs, h⟩ := Act.bind_eq_ok.1 h
  obtain ⟨w, hw, rfl⟩ := onWire_eq_ok.1 h
  exact (same_spill hs).trans ⟨rfl, Wire.inbound_flush hw⟩

end Link

theorem Response.same_deliver {r : Response} {cookies : Option CookieStore} {l l' : Link}
    (h : r.deliver cookies l = .ok () l') : l.SameSupply l' := by
  unfold Response.deliver at h
  obtain ⟨u, l₁, hw, h⟩ := Act.bind_eq_ok.1 h
  obtain ⟨u, l₂, hb, h⟩ := Act.bind_eq_ok.1 h
  have hbody : Link.SameSupply l₁ l₂ := by
    cases hr : r.body with
    | empty =>
      rw [hr] at hb
      cases hb
      exact .refl _
    | bytes data =>
      rw [hr] at hb
      exact Link.same_writeAll hb
    | reader source =>
      rw [hr] at hb
      exact Link.same_copy hb
  exact ((Link.same_writeAll hw).trans hbody).trans (Link.same_send h)

/-- **Sending a response leaves what there is to read alone.** -/
theorem Response.available_deliver {r : Response} {cookies : Option CookieStore} {l l' : Link}
    (h : r.deliver cookies l = .ok () l') : l'.available = l.available :=
  (Response.same_deliver h).available_eq

end HttpEngine
