import RosettaMq.Rumqttc
import RosettaMq.RustStd

/-!
# Decoders

The types of `src/decoder/mod.rs`: what a decoder emits, how the missing fields are filled from the
incoming message, and the trait object `ErasedDecoder`. A decoder streams its messages through a
bounded channel while it runs, so what `decode` does with one message is given as a `DecodeRun`:
the messages it sends, in order, and how it ends.
-/

namespace RosettaMq

/-- `DecodePublish`: a message a decoder asks to publish. Missing fields are resolved from the
incoming message. -/
structure DecodePublish where
  topic : Option String := none
  qos : Option QoS := none
  retain : Option Bool := none
  payload : List UInt8 := []
  deriving DecidableEq, Repr

/-- `ResolvedDecodePublish`: the arguments of one `client.publish` call. -/
structure ResolvedDecodePublish where
  topic : String
  qos : QoS
  retain : Bool
  payload : List UInt8
  deriving DecidableEq, Repr

/-- `DecodePublish::resolve`. -/
def DecodePublish.resolve (self : DecodePublish) (incoming : Publish) : ResolvedDecodePublish where
  topic := self.topic.getD (incoming.topic ++ "/decoded")
  qos := self.qos.getD incoming.qos
  retain := self.retain.getD incoming.retain
  payload := self.payload

/-- How a call of `decode` ends. -/
inductive Ending where
  /-- It returns `Ok(())`. -/
  | ok
  /-- It returns its own error, which displays as this text. -/
  | err (display : String)
  /-- It panics. -/
  | panic
  /-- It never returns. -/
  | hang
  deriving DecidableEq, Repr

/-- What one call of `decode` does: the messages it sends through `tx`, then how it ends. -/
structure DecodeRun where
  sends : List DecodePublish
  ending : Ending
  deriving DecidableEq, Repr

/-- `Arc<dyn ErasedDecoder>`. -/
structure ErasedDecoder where
  decode : Publish → DecodeRun

/-- `decode` returns, with `Ok` or with an error, on every message. -/
def ErasedDecoder.Returns (d : ErasedDecoder) : Prop :=
  ∀ m, (d.decode m).ending ≠ .panic ∧ (d.decode m).ending ≠ .hang

/-- `DecodeError`: the receiver was dropped, or the decoder's own error. -/
inductive DecodeError where
  | chanel
  | decode (display : String)
  deriving DecidableEq, Repr

/-- `Display` of `DecodeError`: both variants are transparent. -/
def DecodeError.display : DecodeError → String
  | .chanel => "channel closed"
  | .decode e => e

/-- The message `decode_and_publish` builds when the decoder returned an error. -/
def errorPublish (err : DecodeError) (message : Publish) : DecodePublish where
  topic := some (message.topic ++ "/decode_error")
  payload := intoBytes
    ("error: " ++ err.display ++ "\nraw_hex: " ++ hexEncode message.payload)

/-- What is published after the decoder has returned: the error message if there is an error. -/
def Ending.report (ending : Ending) (message : Publish) : List ResolvedDecodePublish :=
  match ending with
  | .err e => [(errorPublish (.decode e) message).resolve message]
  | .ok | .panic | .hang => []

/-- The messages `decode_and_publish` hands to the client for `message` when it runs to the end:
what the decoder sent, in order, then one error message if the decoder returned an error. -/
def ErasedDecoder.outputs (d : ErasedDecoder) (message : Publish) : List ResolvedDecodePublish :=
  (d.decode message).sends.map (·.resolve message) ++ (d.decode message).ending.report message

end RosettaMq
