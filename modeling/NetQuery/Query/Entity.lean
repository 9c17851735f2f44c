import NetQuery.Text.Basic

/-!
# Entities

An entity is a kind of record that can be queried: the network inventory, what was measured on it,
and what happened to it. Each has one canonical name. Some also answer to a shorter one, and names
are read without regard to the case of ASCII letters.
-/

namespace NetQuery

/-- A kind of record that can be queried. -/
inductive Entity where
  | devices
  | flows
  | traps
  | connections
  | logs
  | services
  | interfaces
  | deviceUpdates
  | icmpResults
  | snmpResults
  | sweepResults
  | events
  | pollers
  | cpuMetrics
  | diskMetrics
  | memoryMetrics
  | snmpMetrics
  | otelTraceSummaries
  | otelSpansEnriched
deriving DecidableEq, Repr

namespace Entity

/-- All entities. -/
def all : List Entity :=
  [.devices, .flows, .traps, .connections, .logs, .services, .interfaces, .deviceUpdates,
    .icmpResults, .snmpResults, .sweepResults, .events, .pollers, .cpuMetrics, .diskMetrics,
    .memoryMetrics, .snmpMetrics, .otelTraceSummaries, .otelSpansEnriched]

/-- The canonical name. -/
def name : Entity → String
  | .devices => "devices"
  | .flows => "flows"
  | .traps => "traps"
  | .connections => "connections"
  | .logs => "logs"
  | .services => "services"
  | .interfaces => "interfaces"
  | .deviceUpdates => "device_updates"
  | .icmpResults => "icmp_results"
  | .snmpResults => "snmp_results"
  | .sweepResults => "sweep_results"
  | .events => "events"
  | .pollers => "pollers"
  | .cpuMetrics => "cpu_metrics"
  | .diskMetrics => "disk_metrics"
  | .memoryMetrics => "memory_metrics"
  | .snmpMetrics => "snmp_metrics"
  | .otelTraceSummaries => "otel_trace_summaries"
  | .otelSpansEnriched => "otel_spans_enriched"

/-- The shorter name, for the entities that have one. -/
def shortName? : Entity → Option String
  | .devices => some "device"
  | .flows => some "flow"
  | .services => some "service"
  | .interfaces => some "interface"
  | .deviceUpdates => some "updates"
  | .sweepResults => some "sweeps"
  | .pollers => some "poller"
  | .cpuMetrics => some "cpu"
  | .diskMetrics => some "disk"
  | .memoryMetrics => some "memory"
  | .snmpMetrics => some "snmp"
  | .otelTraceSummaries => some "trace_summaries"
  | .otelSpansEnriched => some "spans"
  | _ => none

/-- The entity answers to a name that is already in small letters. -/
def answersTo (e : Entity) (name : String) : Bool :=
  e.name == name || e.shortName? == some name

/-- The entity with a given name, in any case. -/
def ofName? (name : String) : Option Entity :=
  all.find? fun e => e.answersTo (Text.lower name)

end Entity

end NetQuery
