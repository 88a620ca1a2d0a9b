import Sao.Lib.Text

/-!
# `sao-protocol`: header, frames and the framing errors

| here | there |
| --- | --- |
| `MAGIC`, `VERSION`                          | `lib.rs` |
| `HEADER_LEN`, `DEFAULT_MAX_PAYLOAD_LEN`     | `frame.rs` |
| `writeHeader`, `parseHeader`, `Frame`       | `frame.rs` |
| `ProtocolError`, `ProtocolError.display`    | `error.rs` |
| `MsgType.*`                                 | `msg_type.rs` |
-/

namespace Sao

/-- Frame magic bytes `S` `A` `O`. -/
def MAGIC : Bytes := [0x53, 0x41, 0x4F]
def VERSION : UInt8 := 0x01
/-- magic(3) + version(1) + msg_type(1) + payload_len(4) -/
def HEADER_LEN : Nat := 9
def DEFAULT_MAX_PAYLOAD_LEN : UInt32 := 1024 * 1024

namespace MsgType

def AUTH_CHALLENGE : UInt8 := 0x01
def AUTH_RESPONSE : UInt8 := 0x02
def AUTH_RESULT : UInt8 := 0x03
def EXEC_SHELL : UInt8 := 0x10
def STREAM_STDOUT : UInt8 := 0x11
def STREAM_STDERR : UInt8 := 0x12
def EXEC_EXIT : UInt8 := 0x13
def POLICY_DENIED : UInt8 := 0x20
def ERROR : UInt8 := 0xFF

end MsgType

structure Frame where
  msgType : UInt8
  payload : Bytes
deriving DecidableEq, Repr

inductive ProtocolError where
  | io (e : Str)
  | unexpectedEof
  | invalidMagic
  | unsupportedVersion (got : UInt8)
  | payloadTooLarge (len max : UInt32)
  | payloadLengthOverflow (len : UInt32)
deriving DecidableEq, Repr

open Text (hexByte decimal) in
def ProtocolError.display : ProtocolError → Str
  | .io e => "io error: ".toList ++ e
  | .unexpectedEof => "unexpected end of stream".toList
  | .invalidMagic => "invalid frame magic (expected SAO)".toList
  | .unsupportedVersion got => "unsupported protocol version: 0x".toList ++ hexByte got
  | .payloadTooLarge len max =>
    "payload length ".toList ++ decimal len.toNat ++ " exceeds maximum ".toList ++ decimal max.toNat
  | .payloadLengthOverflow len =>
    "payload length ".toList ++ decimal len.toNat ++ " too large for this platform".toList

/-- `write_header`: the nine bytes it puts into `out`. -/
def writeHeader (version msgType : UInt8) (payloadLen : UInt32) : Bytes :=
  MAGIC ++ [version, msgType] ++ Bytes.toBeBytes payloadLen

/-- `parse_header` of a nine-byte buffer: `(version, msg_type, payload_len)`. -/
def parseHeader (hdr : Bytes) : Except ProtocolError (UInt8 × UInt8 × UInt32) :=
  if hdr.take 3 ≠ MAGIC then .error .invalidMagic
  else if hdr.getD 3 0 ≠ VERSION then .error (.unsupportedVersion (hdr.getD 3 0))
  else .ok (hdr.getD 3 0, hdr.getD 4 0,
    Bytes.fromBeBytes (hdr.getD 5 0) (hdr.getD 6 0) (hdr.getD 7 0) (hdr.getD 8 0))

@[simp] theorem length_writeHeader (v t : UInt8) (n : UInt32) : (writeHeader v t n).length = 9 := rfl

/-- What `write_header` writes, `parse_header` reads back. -/
theorem parseHeader_writeHeader (t : UInt8) (n : UInt32) :
    parseHeader (writeHeader VERSION t n) = .ok (VERSION, t, n) := by
  have h := Bytes.fromBeBytes_toBeBytes n
  simpa [parseHeader, writeHeader, MAGIC, Bytes.toBeBytes] using h

/-- A nine-byte header that parses is the one `write_header` writes for what it parses to. -/
theorem parseHeader_ok {hdr : Bytes} (hlen : hdr.length = 9) {v t : UInt8} {n : UInt32}
    (h : parseHeader hdr = .ok (v, t, n)) : hdr = writeHeader VERSION t n := by
  obtain ⟨m0, m1, m2, b3, b4, b5, b6, b7, b8, rfl⟩ :
      ∃ m0 m1 m2 b3 b4 b5 b6 b7 b8, hdr = [m0, m1, m2, b3, b4, b5, b6, b7, b8] := by
    match hdr, hlen with
    | [m0, m1, m2, b3, b4, b5, b6, b7, b8], _ => exact ⟨m0, m1, m2, b3, b4, b5, b6, b7, b8, rfl⟩
  unfold parseHeader at h
  split at h
  · cases h
  · rename_i hm
    split at h
    · cases h
    · rename_i hv
      simp only [Except.ok.injEq, Prod.mk.injEq] at h
      obtain ⟨-, rfl, rfl⟩ := h
      simp only [ne_eq, Decidable.not_not] at hm hv
      have hm' : [m0, m1, m2] = MAGIC := hm
      have hv' : b3 = VERSION := hv
      have hb : Bytes.toBeBytes (Bytes.fromBeBytes b5 b6 b7 b8) = [b5, b6, b7, b8] :=
        Bytes.toBeBytes_fromBeBytes b5 b6 b7 b8
      show [m0, m1, m2] ++ [b3, b4] ++ [b5, b6, b7, b8] =
        MAGIC ++ [VERSION, b4] ++ Bytes.toBeBytes (Bytes.fromBeBytes b5 b6 b7 b8)
      rw [hb, hm', hv']

end Sao
