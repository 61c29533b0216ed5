import RosettaMq.ToMathlib.SplitChar

/-!
# What is assumed of `rumqttc`

The MQTT client library is not part of the repository. This file holds what the modelled code
reads of it or calls in it, as documented: the packet type `Publish`, the check of `publish` on
topics, and `mqttbytes::matches`, the level-by-level matcher that `TopicFilter::matches` delegates
to.
-/

namespace RosettaMq

/-- Quality of service of a PUBLISH packet. -/
inductive QoS where
  | atMostOnce
  | atLeastOnce
  | exactlyOnce
  deriving DecidableEq, Repr

/-- An incoming PUBLISH packet. -/
structure Publish where
  dup : Bool
  qos : QoS
  retain : Bool
  topic : String
  pkid : ℕ
  payload : List UInt8
  deriving DecidableEq, Repr

/-- The levels of a topic or of a topic filter, empty ones included. -/
abbrev levels (s : String) : List String := s.splitChar '/'

/-- Whether the first character of `s` is `$`. -/
def startsWithDollar (s : String) : Bool := s.toList.head? == some '$'

/-- Walk filter levels and topic levels side by side: `#` accepts whatever is left of the topic,
and either side running out before the other rejects. -/
def mqttbytes.walk : List String → List String → Bool
  | [], ts => ts.isEmpty
  | f :: fs, ts =>
      -- also with no topic level left, so that `a/#` accepts `a`
      if f = "#" then true
      else match ts with
        | [] => false
        | t :: ts => (f = "+" || f = t) && mqttbytes.walk fs ts

/-- `mqttbytes::matches`: false at once for a topic that starts with `$`, whatever the filter.

It is assumed to return for every topic and to compare levels as MQTT does. The library does so for
the topics of `PlainTopic`. On other strings, which are no topic names or do not start with an ASCII
character, it may panic or refuse a level `#`. -/
def mqttbytes.matches (topic filter : String) : Bool :=
  if startsWithDollar topic then false else mqttbytes.walk (levels filter) (levels topic)

/-- Whether `publish` accepts the topic: a topic has no wildcards. -/
def mqttbytes.validTopic (topic : String) : Bool :=
  !topic.toList.contains '+' && !topic.toList.contains '#'

/-- Whether the first character of `s` is no ASCII character. -/
def startsNonAscii (s : String) : Bool := s.toList.head?.any fun c => 0x7F < c.toNat

/-- The topics on which the library's matcher is the one above: names that are not empty, have no
wildcards and start with an ASCII character. -/
structure PlainTopic (topic : String) : Prop where
  ne_empty : topic ≠ ""
  valid : mqttbytes.validTopic topic = true
  ascii : startsNonAscii topic = false

end RosettaMq
