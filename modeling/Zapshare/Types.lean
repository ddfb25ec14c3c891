import Zapshare.Wire.Utf8

/-!
# The types both programs share

`types.h`: the constants of the UDP transfer and the record of a registered transfer. A C++
`std::string` is a byte string here, `Wire.Bytes`; a `size_t` that is stored or sent is a
`UInt64`.
-/

namespace Zapshare

open Wire

/-- The bytes of an ASCII string literal of the source. -/
def text (s : String) : Bytes := s.toList.map fun c => UInt8.ofNat c.toNat

namespace UdpConfig

/-- The size of every receive buffer. -/
def maxPacketSize : ℕ := 1400

/-- What is set aside for the rest of a packet. -/
def headerSize : ℕ := 128

/-- The bytes of file a `DataChunk` carries at most. -/
def payloadSize : ℕ := maxPacketSize - headerSize

/-- The timeouts in a row after which the receiver gives up. -/
def maxRetries : ℕ := 20

theorem payloadSize_pos : 0 < payloadSize := by decide

end UdpConfig

/-- A UDP endpoint: the address in network byte order, and the port. -/
structure Endpoint where
  address : Bytes
  port : UInt16
  deriving DecidableEq, Repr

/-- The metadata of a transfer, as registered with the central server. -/
structure Transfers where
  id : Bytes := []
  senderIp : Bytes := []
  senderPort : UInt32 := 0
  senderLocalIp : Bytes := []
  senderLocalPort : UInt32 := 0
  protocol : Bytes := []
  fileName : Bytes := []
  fileSize : UInt64 := 0
  fileHash : Bytes := []
  token : Bytes := []
  deriving DecidableEq, Repr

/-- The contents of a file. A file offset is a signed 64-bit number, so none is longer. -/
structure FileContent where
  bytes : Bytes
  length_lt : bytes.length < 2 ^ 63

/-- What a `recvfrom` into a buffer of `maxPacketSize` bytes leaves of a datagram. -/
def received (datagram : Bytes) : Bytes := datagram.take UdpConfig.maxPacketSize

/-- A datagram on its way: where it goes, and its bytes. -/
structure Datagram where
  dest : Endpoint
  bytes : Bytes
  deriving DecidableEq, Repr

/-! ### A sample transfer

One byte, sent from one port of a host to another. -/

/-- The token of the sample transfer, which is its id as well. -/
def sampleToken : Bytes := text "t"

/-- Where the sender has the sample file. -/
def samplePath : Bytes := text "f"

/-- The sample file. -/
def sampleFile : FileContent := ⟨[0], by decide⟩

/-- The endpoint of the sender. -/
def sampleSender : Endpoint := ⟨[127, 0, 0, 1], 5000⟩

/-- The endpoint of the receiver. -/
def samplePeer : Endpoint := ⟨[127, 0, 0, 1], 4000⟩

end Zapshare
