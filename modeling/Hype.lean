import Hype.Basic
import Hype.Lpack.Basic
import Hype.Lpack.Format
import Hype.Lpack.Int
import Hype.Lpack.Pack
import Hype.Lpack.Unpack
import Hype.Lpack.RoundTrip
import Hype.Lpack.Repack
import Hype.Pktizr.Loop
import Hype.Pktizr.Capture
import Hype.Pktizr.Send
import Hype.Pktizr.Main
import Hype.Pktizr.Start
import Hype.Pktizr.Shutdown
