import WakeOnLan.CLib.Bytes
import WakeOnLan.CLib.Scanf
import WakeOnLan.CLib.Tokens
import WakeOnLan.CLib.HexFields
import WakeOnLan.CLib.Printf
import WakeOnLan.CLib.Memory
import WakeOnLan.CLib.Checked
import WakeOnLan.CLib.Stdio
import WakeOnLan.CLib.Loop
import WakeOnLan.CLib.Simulation
import WakeOnLan.CLib.LastWins
import WakeOnLan.CLib.Rotate
import WakeOnLan.CLib.Words
import WakeOnLan.CLib.Blocks
import WakeOnLan.CLib.Sines
import WakeOnLan.Packet
import WakeOnLan.Magic
import WakeOnLan.MagicCorrect
import WakeOnLan.MagicFailure
import WakeOnLan.MagicSyntax
import WakeOnLan.Macfile
import WakeOnLan.MacfileCorrect
import WakeOnLan.MacfileFormat
import WakeOnLan.MacfileWords
import WakeOnLan.MacfileStores
import WakeOnLan.MacfileTrace
import WakeOnLan.MacfileStream
import WakeOnLan.ReadLoop
import WakeOnLan.Getstr
import WakeOnLan.GetstrCorrect
import WakeOnLan.Net
import WakeOnLan.Proxy
import WakeOnLan.ProxyCorrect
import WakeOnLan.ProxyChallenge
import WakeOnLan.ProxyBounds
import WakeOnLan.Md5
import WakeOnLan.Md5Rounds
import WakeOnLan.Md5Correct
import WakeOnLan.ProxyDigest
import WakeOnLan.Send
import WakeOnLan.SendCorrect
import WakeOnLan.Getopt
import WakeOnLan.GetoptScan
import WakeOnLan.GetoptCorrect
import WakeOnLan.Options
import WakeOnLan.Wol
import WakeOnLan.Argv
import WakeOnLan.Run
import WakeOnLan.Spelling
import WakeOnLan.OptionsCorrect
import WakeOnLan.PortNumbers
import WakeOnLan.Calls
import WakeOnLan.Wait
import WakeOnLan.Defaults
import WakeOnLan.Passwords
import WakeOnLan.ExitStatus
import WakeOnLan.Tally
import WakeOnLan.Targets
import WakeOnLan.StreamStatus
import WakeOnLan.Awk
import WakeOnLan.Scripts
import WakeOnLan.DhcpdconfCorrect
import WakeOnLan.Bootptab
import WakeOnLan.BootptabCorrect
import WakeOnLan.Prompt
import WakeOnLan.Trace
import WakeOnLan.Pipeline
import WakeOnLan.NicFake
import WakeOnLan.Delivery
import WakeOnLan.Endless
import WakeOnLan.Conversation
