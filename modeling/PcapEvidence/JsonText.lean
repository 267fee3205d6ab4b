import PcapEvidence.BgpRib
import PcapEvidence.Sha256

/-!
# The text of a JSON value

`encode` writes a value without blanks, `encodedLen` is the size of that text without building it.
Evidence bytes are shown by their length, their hash and the captured ranges they came from.
-/

namespace PcapEvidence.Bgp

open History

namespace Json

def itemsOf : List Json → JsonItems
  | [] => .nil
  | j :: rest => .cons j (itemsOf rest)

def fieldsOf : List (String × Json) → JsonFields
  | [] => .nil
  | (key, j) :: rest => .cons key j (fieldsOf rest)

def arrayOf (l : List Json) : Json := .array (itemsOf l)

def objectOf (l : List (String × Json)) : Json := .object (fieldsOf l)

def hexDigit (n : ℕ) : Char := "0123456789abcdef".toList.getD n '0'

/-- The text of one character between quotes. -/
def escapeChar (c : Char) : List Char :=
  if c = '"' then ['\\', '"']
  else if c = '\\' then ['\\', '\\']
  else if c = '\n' then ['\\', 'n']
  else if c = '\r' then ['\\', 'r']
  else if c = '\t' then ['\\', 't']
  else if c.toNat = 8 then ['\\', 'b']
  else if c.toNat = 12 then ['\\', 'f']
  else if c.toNat < 32 then
    ['\\', 'u', '0', '0', hexDigit (c.toNat / 16), hexDigit (c.toNat % 16)]
  else [c]

def escape (value : String) : String :=
  "\"" ++ String.ofList (value.toList.flatMap escapeChar) ++ "\""

mutual

def encode : Json → String
  | .null => "null"
  | .bool true => "true"
  | .bool false => "false"
  | .number n => n.toNat.repr
  | .string s => escape s
  | .array items => "[" ++ encodeItems items true
  | .object fields => "\x7b" ++ encodeFields fields true

def encodeItems : JsonItems → Bool → String
  | .nil, _ => "]"
  | .cons item rest, first => (if first then "" else ",") ++ encode item ++ encodeItems rest false

def encodeFields : JsonFields → Bool → String
  | .nil, _ => "\x7d"
  | .cons key value rest, first =>
    (if first then "" else ",") ++ escape key ++ ":" ++ encode value ++ encodeFields rest false

end

def encodedLen (j : Json) : ℕ := j.encode.utf8ByteSize

def encodeBounded (j : Json) (limit : ℕ) : Result String :=
  if j.encodedLen ≤ limit then .ok j.encode else .error (Error.limit "report_bytes")

end Json

def hex (data : List U8) : String :=
  String.ofList (data.flatMap fun b => [Json.hexDigit (b.toNat / 16), Json.hexDigit (b.toNat % 16)])

def decimalText (n : ℕ) : Json := .string n.repr

def packetRef (p : PacketId) : Json :=
  Json.objectOf [("frame", decimalText p.frame), ("record_offset", decimalText p.recordOffset)]

def spanJson (s : SourceSpan) : Json :=
  Json.objectOf [("frame", decimalText s.packet.frame),
    ("record_offset", decimalText s.packet.recordOffset),
    ("packet_start", decimalText s.packetStart),
    ("start", decimalText s.start),
    ("end", decimalText s.stop)]

/-- `Evidence::bytes(b).json()`. -/
def evidenceJson (b : EvidenceBytes) : Json :=
  Json.objectOf [("byte_length", decimalText b.len),
    ("reconstructed_sha256", .string (hex (Sha256.digest b.data).toList)),
    ("packets", Json.arrayOf (b.packets.map packetRef)),
    ("spans", Json.arrayOf (b.spans.map spanJson))]

end PcapEvidence.Bgp
