import HttpEngine.Serving.Config
import HttpEngine.Text.Blank
import HttpEngine.Yaml.Record

/-!
# Configurations as text

* `Config.ofText`: the configuration that a document describes. **What it does not mention
  keeps its value**, and what it mentions needlessly is passed over.
-/

namespace HttpEngine

open Yaml Text

namespace Config

/-- What a listener secures its clients with. -/
def safeguard (d : Document) (n : Node) : Query Safeguard := do
  let r ← d.record ["cert_path", "key_path", "handshake_timeout_secs"] n
  let certificate ← field r "cert_path" d.text
  let key ← field r "key_path" d.text
  let patience ← fieldOr r "handshake_timeout_secs" 10 (d.natUpTo maxWord64)
  return { certificate, key, patience }

/-- Where clients are waited for. -/
def listening (d : Document) (n : Node) : Query Listening := do
  let r ← d.record ["address", "tls"] n
  let address ← field r "address" d.text
  let safeguard? ← fieldOr r "tls" none (d.optional (safeguard d))
  return { address, safeguard? }

/-- Settings with other limits. -/
def limits (d : Document) (s : Settings) (n : Node) : Query Settings := do
  let r ← d.record ["read_limit", "write_limit"] n
  let limit := d.optional (d.natUpTo maxWord64)
  let readLimit ← fieldOr r "read_limit" none limit
  let writeLimit ← fieldOr r "write_limit" none limit
  return { s with readLimit, writeLimit }

/-- Settings with another way to read, and to write. -/
def reading (d : Document) (s : Settings) (n : Node) : Query Settings := do
  let r ← d.record ["buffer_size", "empty_read_delay_ms", "empty_read_retries",
    "max_line_length", "write_buffer_size"] n
  let number := d.natUpTo maxWord64
  let bufferSize ← fieldOr r "buffer_size" s.reader.bufferSize number
  let delay ← fieldOr r "empty_read_delay_ms" s.reader.delay number
  let retries ← fieldOr r "empty_read_retries" s.reader.retries (d.natUpTo maxWord32)
  let maxLine ← fieldOr r "max_line_length" s.reader.maxLine number
  let writeBuffer ← fieldOr r "write_buffer_size" s.writeBuffer number
  return { s with
    reader := { bufferSize, delayNanos := delay * 1000000, retries, maxLine }
    writeBuffer }

/-- The codings and the level that a node asks for. -/
def compression (d : Document) (c : Config) (n : Node) : Query Config := do
  let r ← d.record ["encodings", "level"] n
  let codings ← fieldOr r "encodings" c.codings fun n => do (← d.items n).mapM d.text
  let level ← fieldOr r "level" c.level (d.natUpTo maxWord32)
  return { c with codings, level }

/-- The words for where a request may ask for another method. -/
def overrideWords : List (String × Option OverrideField) :=
  [("none", none), ("header", some .header), ("form", some .form)]

/-- The configuration that a node describes. -/
def described (d : Document) (n : Node) : Query Config := do
  let c : Config := {}
  let r ← d.record ["listeners", "limits", "reader", "compression", "method_override"] n
  let listeners ← fieldOr r "listeners" c.listeners fun n => do
    (← d.items n).mapM (listening d)
  let settings ← fieldOr r "limits" c.settings (limits d c.settings)
  let settings ← fieldOr r "reader" settings (reading d settings)
  let c ← fieldOr r "compression" c (compression d c)
  let override? ← fieldOr r "method_override" c.override? (d.choice overrideWords)
  return { c with listeners, settings, override? }

/-- **The configuration in a text**; a text of blanks has the usual one. -/
def ofText? (text : String) : Option Config :=
  if (trim text).isEmpty then some {} else do
    let d ← Document.ofText? text
    d.answer (described d)

end Config

end HttpEngine
