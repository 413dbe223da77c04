import Daisyway.Util.Bytes
import Daisyway.Util.ReadExt
import Daisyway.Util.Base64
import Daisyway.Util.KeyFile
import Daisyway.Crypto.HashDomain
import Daisyway.Crypto.Basics
import Daisyway.Crypto.Protocol
import Daisyway.Crypto.Lockstep
import Daisyway.Crypto.Clocked
import Daisyway.Osk.Outfile
import Daisyway.Osk.Deadman
import Daisyway.Etsi014
import Daisyway.Simulator
import Daisyway.Setup
import Daisyway.Tls
import Daisyway.CommandLine
import Daisyway.Osk.Pacing
import Daisyway.Server.ConnectionManager
import Daisyway.Server.Supersession
import Daisyway.Server.TcpServer
import Daisyway.Client.TcpClient
