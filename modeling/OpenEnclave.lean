import OpenEnclave.Lib.Bytes
import OpenEnclave.Lib.Chunked
import OpenEnclave.Lib.Mealy
import OpenEnclave.Lib.Effect
import OpenEnclave.Lib.Transition
import OpenEnclave.Lib.Family
import OpenEnclave.Lib.Blocks
import OpenEnclave.Lib.Linearizable
import OpenEnclave.Lib.Monitor
import OpenEnclave.Lib.Lfsr
import OpenEnclave.Lib.Period
import OpenEnclave.Lib.Remainder
import OpenEnclave.Crypto.Container
import OpenEnclave.Crypto.Cipher
import OpenEnclave.Crypto.Wipe
import OpenEnclave.Crypto.Objects
import OpenEnclave.Crypto.Ownership
import OpenEnclave.Crypto.Buffer
import OpenEnclave.Crypto.Calls
import OpenEnclave.Crypto.Raw
import OpenEnclave.Crypto.Authenticity
import OpenEnclave.Protocol.Message
import OpenEnclave.Protocol.Frame
import OpenEnclave.Protocol.Payload
import OpenEnclave.Protocol.Checksum
import OpenEnclave.Protocol.Corruption
import OpenEnclave.Protocol.DoubleError
import OpenEnclave.Protocol.Remainder
import OpenEnclave.Enclave.Basic
import OpenEnclave.Enclave.Invariant
import OpenEnclave.Enclave.Store
import OpenEnclave.Enclave.Modules
import OpenEnclave.Enclave.Threads
import OpenEnclave.Server.Basic
import OpenEnclave.Server.Serve
import OpenEnclave.Server.Receive
import OpenEnclave.Server.Reply
import OpenEnclave.Server.Secrets
import OpenEnclave.Server.Forgery
import OpenEnclave.Server.Process
import OpenEnclave.Server.Shutdown
import OpenEnclave.Server.Descriptors
import OpenEnclave.Server.Atomic
import OpenEnclave.Server.Exit
import OpenEnclave.Server.Loop
import OpenEnclave.Server.Trace
import OpenEnclave.Client.Basic
import OpenEnclave.Client.Sockets
import OpenEnclave.Client.Remote
import OpenEnclave.Client.Session
import OpenEnclave.Client.Example
import OpenEnclave.Client.Clients
import OpenEnclave.Client.Validation
