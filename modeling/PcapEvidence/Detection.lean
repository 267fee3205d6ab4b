import PcapEvidence.CaptureRecord
import PcapEvidence.Protocol
import PcapEvidence.TcpStep

/-!
# Configuration and protocol selection

A flow is classified by the content of its reconstructed chunks; configured ports are hints. When
both point to different protocols, both interpretations are kept.
-/

namespace PcapEvidence

structure Config where
  limits : Limits
  parseMode : ParseMode
  overlapPolicy : OverlapPolicy
  checksumPolicy : ChecksumPolicy
  idleTimeoutNs : ℤ
  dnp3Ports : List U16
  modbusPorts : List U16

namespace Config

def default : Config where
  limits := .default
  parseMode := .strict
  overlapPolicy := .rejectConflict
  checksumPolicy := .observe
  idleTimeoutNs := 120000000000
  dnp3Ports := [20000]
  modbusPorts := [502]

def validate (c : Config) : Result Unit := do
  c.limits.validate
  if c.idleTimeoutNs ≤ 0 then .error ⟨.usage, 0, "idle_timeout", "must be positive"⟩
  else if c.dnp3Ports.any (fun port => c.modbusPorts.contains port) then
    .error ⟨.usage, 0, "protocol_ports", "a port cannot select two dissectors"⟩
  else if c.dnp3Ports.length + c.modbusPorts.length > 128 then
    .error (Error.limit "protocol_ports")
  else .ok ()

theorem validate_never (c : Config) : NeverInvariant c.validate := by
  rw [validate, neverInvariant_bind_iff]
  refine ⟨fun e he => Limits.validate_error_code he, fun _ _ => ?_⟩
  simp

end Config

structure Selection where
  dnp3 : Bool
  modbus : Bool
  basis : String
  matched : List String

namespace Detection

structure Content where
  dnp3 : Bool
  modbus : Bool

def Content.note (c : Content) (observation : ProbeObservation) : Content :=
  match observation.result with
  | .matched protocol _ _ _ =>
    if protocol = "dnp3" then { c with dnp3 := true }
    else if protocol = "modbus" then { c with modbus := true }
    else c
  | _ => c

def portsOf (key : FlowKey) (direction : Fin 2) : U16 × U16 :=
  if direction = 0 then (key.a.port, key.b.port) else (key.b.port, key.a.port)

def inspectChunk (registry : ProbeRegistry) (key : FlowKey) (direction : Fin 2) (c : Content)
    (chunk : StreamChunk) : Result Content :=
  if chunk.bytes.isEmpty then .ok c
  else do
    let observations ← registry.inspect {
      transport := .tcp
      sourcePort := (portsOf key direction).1
      destinationPort := (portsOf key direction).2
      prefixBytes := chunk.bytes.data.take (min chunk.bytes.len 4096) }
    .ok (observations.foldl Content.note c)

def inspectStream (registry : ProbeRegistry) (flow : FlowResult) (c : Content) (direction : Fin 2) :
    Result Content :=
  match flow.streams direction with
  | none => .ok c
  | some stream => stream.chunks.foldlM (inspectChunk registry flow.key direction) c

def select (content hint : Content) : Selection :=
  let dnp3 := content.dnp3 || hint.dnp3
  let modbus := content.modbus || hint.modbus
  { dnp3 := dnp3
    modbus := modbus
    basis :=
      if content.dnp3 || content.modbus then
        if (content.dnp3 && hint.modbus) || (content.modbus && hint.dnp3) then
          "content_and_configured_port_hint"
        else "content"
      else if dnp3 || modbus then "configured_port_hint_unconfirmed_by_probe"
      else "none"
    matched := (if dnp3 then ["dnp3"] else []) ++ (if modbus then ["modbus"] else []) }

def classifyFlow (flow : FlowResult) (config : Config) : Result Selection := do
  let registry ← ProbeRegistry.builtins
  let content ← [0, 1].foldlM (inspectStream registry flow) ⟨false, false⟩
  .ok (select content {
    dnp3 := config.dnp3Ports.contains flow.key.a.port || config.dnp3Ports.contains flow.key.b.port
    modbus := config.modbusPorts.contains flow.key.a.port ||
      config.modbusPorts.contains flow.key.b.port })

theorem foldlM_ok {α β : Type} {f : β → α → Result β} (h : ∀ b a, ∃ c, f b a = .ok c) (b : β)
    (l : List α) : ∃ c, l.foldlM f b = .ok c := by
  induction l generalizing b with
  | nil => exact ⟨b, rfl⟩
  | cons a rest ih =>
    obtain ⟨c, hc⟩ := h b a
    obtain ⟨d, hd⟩ := ih c
    rw [List.foldlM_cons, hc]
    exact ⟨d, hd⟩

theorem classifyFlow_ok (flow : FlowResult) (config : Config) :
    ∃ selection, classifyFlow flow config = .ok selection := by
  have hlaw : ∀ probe ∈ [dnp3Probe, modbusProbe], ProbeRegistry.Lawful 4096 probe := by
    intro probe hprobe
    rcases List.mem_pair.1 hprobe with rfl | rfl
    · exact ProbeRegistry.lawful_dnp3Probe
    · exact ProbeRegistry.lawful_modbusProbe
  have hchunk (direction : Fin 2) (c : Content) (chunk : StreamChunk) : ∃ c',
      inspectChunk ⟨[dnp3Probe, modbusProbe], 16, 4096⟩ flow.key direction c chunk = .ok c' := by
    unfold inspectChunk
    split_ifs
    · exact ⟨_, rfl⟩
    · rw [ProbeRegistry.inspect_lawful hlaw (by simp only [List.length_take]; omega)]
      exact ⟨_, rfl⟩
  have hstream (c : Content) (direction : Fin 2) : ∃ c',
      inspectStream ⟨[dnp3Probe, modbusProbe], 16, 4096⟩ flow c direction = .ok c' := by
    unfold inspectStream
    split
    · exact ⟨_, rfl⟩
    · exact foldlM_ok (hchunk direction) _ _
  obtain ⟨content, hcontent⟩ := foldlM_ok hstream ⟨false, false⟩ [0, 1]
  exact ⟨_, bind_eq_ok.2 ⟨_, ProbeRegistry.builtins_ok, bind_eq_ok.2 ⟨content, hcontent, rfl⟩⟩⟩

end Detection
end PcapEvidence
