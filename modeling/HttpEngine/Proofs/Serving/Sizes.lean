import HttpEngine.Serving.Config.Written
import HttpEngine.Transport.Reader

/-!
# Numbers that a configuration can hold

A number in a document is read **up to a greatest one**, and a number that it does not mention
keeps its usual value. So whatever a configuration says of a reader fits into the words that it is
kept in.

* `Yaml.Yields`: what an answer to a question about a document always is.
* `Config.reader_inWords`: the options of a reader.
-/

namespace HttpEngine

open Text

namespace Yaml

variable {α β : Type} {P : α → Prop} {Q : β → Prop}

/-- **Any answer** to a question is such. -/
def Yields (P : α → Prop) (q : Query α) : Prop := ∀ left a left', q left = some (a, left') → P a

theorem yields_pure {a : α} (h : P a) : Yields P (pure a) := by
  rintro left a left' ⟨⟩
  exact h

theorem yields_bind {q : Query α} {f : α → Query β} (hq : Yields P q)
    (hf : ∀ a, P a → Yields Q (f a)) : Yields Q (q >>= f) := by
  intro left b left' h
  obtain ⟨⟨a, left₁⟩, ha, hb⟩ := Option.bind_eq_some_iff.1 h
  exact hf a (hq left a left₁ ha) left₁ b left' hb

theorem yields_any (q : Query α) : Yields (fun _ => True) q := fun _ _ _ _ => trivial

theorem yields_fieldOr {fields : List (String × Node)} {name : String} {missing : α}
    {read : Node → Query α} (hmissing : P missing) (hread : ∀ n, Yields P (read n)) :
    Yields P (fieldOr fields name missing read) := by
  unfold fieldOr
  cases fields.lookup name with
  | none => exact yields_pure hmissing
  | some n => exact hread n

theorem yields_failure : Yields P (failure : Query α) := by
  rintro left a left' ⟨⟩

theorem yields_lift {x : Option α} (h : ∀ a, x = some a → P a) : Yields P (liftM x : Query α) := by
  intro left a left' hx
  obtain ⟨b, hb, hpure⟩ := Option.bind_eq_some_iff.1 hx
  cases hpure
  exact h a hb

/-- A number is **at most the greatest one**. -/
theorem yields_natUpTo (d : Document) (greatest : Nat) (n : Node) :
    Yields (· ≤ greatest) (d.natUpTo greatest n) := by
  unfold Document.natUpTo
  refine yields_bind (yields_any _) fun m _ => ?_
  cases m with
  | text tag? style s =>
    simp only
    split
    · refine yields_lift fun a ha => ?_
      simpa using (Option.filter_eq_some_iff.1 ha).2
    · exact yields_failure
  | _ => exact yields_failure

end Yaml

namespace Config

open Yaml

theorem defaults_inWords : ({} : ReaderOptions).InWords := ⟨by decide, by decide, by decide⟩

theorem yields_reading (d : Document) {s : Settings} (hs : s.reader.InWords) (n : Node) :
    Yields (fun s : Settings => s.reader.InWords) (reading d s n) := by
  unfold reading
  refine yields_bind (yields_any _) fun r _ => ?_
  refine yields_bind (yields_fieldOr hs.bufferSize_le (yields_natUpTo d _)) fun size hsize => ?_
  refine yields_bind (yields_any _) fun delay _ => ?_
  refine yields_bind (yields_fieldOr hs.retries_le (yields_natUpTo d _)) fun retries hretries => ?_
  refine yields_bind (yields_fieldOr hs.maxLine_le (yields_natUpTo d _)) fun maxLine hline => ?_
  refine yields_bind (yields_any _) fun writeBuffer _ => ?_
  exact yields_pure ⟨hsize, hretries, hline⟩

theorem yields_limits (d : Document) {s : Settings} (hs : s.reader.InWords) (n : Node) :
    Yields (fun s : Settings => s.reader.InWords) (limits d s n) := by
  unfold limits
  refine yields_bind (yields_any _) fun r _ => ?_
  refine yields_bind (yields_any _) fun readLimit _ => ?_
  refine yields_bind (yields_any _) fun writeLimit _ => ?_
  exact yields_pure hs

theorem yields_described (d : Document) (n : Node) :
    Yields (fun c : Config => c.settings.reader.InWords) (described d n) := by
  unfold described
  refine yields_bind (yields_any _) fun r _ => ?_
  refine yields_bind (yields_any _) fun listeners _ => ?_
  refine yields_bind (yields_fieldOr defaults_inWords (yields_limits d defaults_inWords))
    fun s hs => ?_
  refine yields_bind (yields_fieldOr hs (yields_reading d hs)) fun s hs => ?_
  refine yields_bind (yields_any _) fun c _ => ?_
  refine yields_bind (yields_any _) fun override? _ => ?_
  exact yields_pure hs

/-- The options of a reader that a configuration can hold **are words**, whatever its text is. -/
theorem reader_inWords {text : String} {c : Config} (h : ofText? text = some c) :
    c.settings.reader.InWords := by
  unfold ofText? at h
  split at h
  · cases h
    exact defaults_inWords
  · obtain ⟨d, -, hanswer⟩ := Option.bind_eq_some_iff.1 h
    unfold Document.answer StateT.run' at hanswer
    obtain ⟨⟨a, left⟩, hrun, rfl⟩ := Option.map_eq_some_iff.1 hanswer
    exact yields_described d d.root _ a left hrun

end Config

end HttpEngine
