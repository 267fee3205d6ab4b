import PcapEvidence.CaptureTime
import PcapEvidence.WireDecode

/-!
# Capture records

The records of classic PCAP and PCAPNG files as the decoder emits them: raw bytes with validated
offsets. Unknown bytes remain untouched.
-/

namespace PcapEvidence

inductive Endian where
  | little | big
  deriving DecidableEq

namespace Endian

def u16 (e : Endian) (b : List U8) (i : ℕ) : U16 :=
  match e with
  | little => byteAt b (i + 1) ++ byteAt b i
  | big => be16 b i

def u32 (e : Endian) (b : List U8) (i : ℕ) : U32 :=
  match e with
  | little => le32 b i
  | big => be32 b i

def u64 (e : Endian) (b : List U8) (i : ℕ) : U64 :=
  match e with
  | little => le32 b (i + 4) ++ le32 b i
  | big => be32 b i ++ be32 b (i + 4)

end Endian

inductive Format where
  | pcap | pcapNg
  deriving DecidableEq

inductive ParseMode where
  /-- Reject contradictory packet lengths and invalid legacy time fractions. -/
  | strict
  /-- Preserve structurally readable contradictions and emit warnings. -/
  | evidence
  deriving DecidableEq

structure Warning where
  code : String
  offset : ℕ

structure OptionMeta where
  code : U16
  valueOffset : ℕ
  length : ℕ

structure Interface where
  sectionId : U32
  id : U32
  linkType : U32
  snaplen : U32
  resolution : Resolution
  offsetSeconds : U64
  deriving DecidableEq

structure LegacyHeader where
  endian : Endian
  nanos : Bool
  snaplen : U32
  linkWord : U32

structure PacketMeta where
  frame : ℕ
  sectionId : U32
  interface : U32
  linkType : U32
  capturedLen : U32
  originalLen : U32
  dataOffset : ℕ
  timestamp : Option Timestamp

inductive RecordKind where
  | legacyHeader (header : LegacyHeader)
  | sectionHeader (id : U32) (declaredLength : Option ℕ)
  | interface (interface : Interface)
  | packet (info : PacketMeta)
  | names (records : ℕ)
  | statistics (interface : U32) (timestamp : Timestamp)
  | secrets (secretsType secretsLen : U32)
  | custom (pen : U32) (copyOnEdit : Bool)
  | unknown (blockType : U32)

structure Record where
  offset : ℕ
  endian : Endian
  raw : List U8
  kind : RecordKind
  options : List OptionMeta
  warnings : List Warning

namespace Record

def packet (r : Record) : Option (PacketMeta × List U8) :=
  match r.kind with
  | .packet p => some (p, sliceOf r.raw p.dataOffset (p.dataOffset + p.capturedLen.toNat))
  | _ => none

def optionValue (r : Record) (o : OptionMeta) : Option (List U8) :=
  if o.valueOffset + o.length ≤ r.raw.length then
    some (sliceOf r.raw o.valueOffset (o.valueOffset + o.length))
  else none

end Record

inductive Decode where
  /-- Minimum total bytes required at the current record boundary. -/
  | needMore (need : ℕ)
  | record (record : Record)

structure Decoder where
  limits : Limits
  mode : ParseMode
  format : Option Format
  endian : Endian
  legacy : Option LegacyHeader
  interfaces : List Interface
  sectionId : U32
  sectionsSeen : U32
  sectionEnd : Option ℕ
  nextFrame : ℕ
  records : ℕ

end PcapEvidence
