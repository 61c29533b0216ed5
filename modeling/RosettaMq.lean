import RosettaMq.Topic.Grammar
import RosettaMq.Decoder.Precedence
import RosettaMq.Decoder.Recovery
import RosettaMq.Decoder.Registration
import RosettaMq.Client.Options
import RosettaMq.Client.Packet
import RosettaMq.Client.Startup
import RosettaMq.Config.Acceptance
import RosettaMq.Config.Document
import RosettaMq.Config.Usage
import RosettaMq.Engine.Feedback
import RosettaMq.Engine.Intake
import RosettaMq.Engine.Isolation
import RosettaMq.Engine.Lossless
import RosettaMq.Engine.Overtaking
import RosettaMq.Client.Lifetime
import RosettaMq.Client.Wedged
import RosettaMq.Client.Drain
import RosettaMq.Client.Footprint
import RosettaMq.Client.Replay
import RosettaMq.Setup.Relocation
import RosettaMq.Setup.Session
