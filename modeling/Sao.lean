import Sao.Lib.Lts
import Sao.Protocol.FrameStream
import Sao.Core.KnownHostsFile
import Sao.Server.Timeout
import Sao.Client.PinRace
import Sao.Core.Fingerprint
import Sao.Core.KnownHostsCrash
import Sao.Server.Kill
import Sao.Server.Answers
import Sao.Client.TrustAdd
import Sao.Protocol.Wire
import Sao.System.Adversary
import Sao.System.Provisioning
import Sao.System.Relay
import Sao.System.Fidelity
import Sao.Client.ExitStatus
import Sao.Core.KnownHostsPanic
import Sao.Core.AuthorizedSet
import Sao.Core.FirstUse
import Sao.System.Announced
import Sao.Server.KeyMaterial
import Sao.Server.InitRetry
import Sao.Server.Serving
import Sao.System.Backpressure
import Sao.Client.Plain
import Sao.System.Outcome
import Sao.Protocol.ReadExact
import Sao.Core.AgentKeyCrash
import Sao.Server.Audit
import Sao.Client.Address
import Sao.Client.Main
import Sao.Client.Enrolment
