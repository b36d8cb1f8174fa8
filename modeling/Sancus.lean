import Sancus.Netlink.Datagram
import Sancus.Time.Timespec
import Sancus.Time.Add
import Sancus.Netlink.Attr
import Sancus.Netlink.RoundTrip
import Sancus.Netlink.Bounds
import Sancus.Fd.Writev
import Sancus.CModel.Machine
import Sancus.Stream.Buffer
import Sancus.Stream.ReadCb
import Sancus.Stream.History
import Sancus.Stream.ReadFull
import Sancus.Buffer.Model
import Sancus.Buffer.Refinement
import Sancus.Buffer.Bounds
import Sancus.CModel.Ring
import Sancus.Lists.Node
import Sancus.Lists.Integrity
import Sancus.Netlink.Headers
import Sancus.Netlink.RecvCb
import Sancus.Netlink.Writers
import Sancus.Time.Deadline
import Sancus.Stream.Close
import Sancus.Tcp.Conn
import Sancus.Tcp.Run
import Sancus.Netlink.Validate
import Sancus.Time.Canonical
import Sancus.CModel.Greedy
import Sancus.Fmt.Cstr
import Sancus.Time.Compare
import Sancus.Buffer.Append
import Sancus.CModel.Format
import Sancus.Log.Model
import Sancus.Log.Prefix
import Sancus.Log.Dump
import Sancus.Log.HexLine
import Sancus.Log.Hexdump
import Sancus.Lists.Swap
import Sancus.Lists.Iterate
import Sancus.Lists.Access
import Sancus.CModel.Literal
import Sancus.Fmt.ReadBack
import Sancus.CModel.IntType
import Sancus.CModel.Strto
import Sancus.Types.Model
import Sancus.Types.Parse
import Sancus.Types.Convert
import Sancus.CModel.Inherit
import Sancus.CModel.Mask
import Sancus.Log.Inherit
import Sancus.Log.Mask
import Sancus.CModel.PrefixCode
import Sancus.Fd.Open
import Sancus.Fd.Progress
import Sancus.Str.Copy
import Sancus.Tcp.Idle
import Sancus.Time.Milliseconds
import Sancus.Time.Sign
import Sancus.Log.Decode
import Sancus.Time.Clock
import Sancus.Log.FdBackend
import Sancus.CModel.Pool
import Sancus.Tcp.Address
import Sancus.Fd.Closing
import Sancus.Tcp.Server
import Sancus.Fd.Setup
import Sancus.Netlink.Listen
import Sancus.Tcp.Setup
import Sancus.Descriptors
import Sancus.Fd.Write
import Sancus.Stream.Progress
import Sancus.Netlink.Compose
import Sancus.Netlink.Link
import Sancus.Log.Line
import Sancus.Log.Output
import Sancus.Stream.Channel
import Sancus.Watchers
import Sancus.Serial.Port
import Sancus.CModel.Field
import Sancus.Types.Bit
import Sancus.Time.Counter
import Sancus.CModel.Text
import Sancus.Log.Dumps
