import NetQuery.Query.Entity

/-!
# The column catalog

The catalog names the columns of every entity, in the order in which they are shown, and the type of
each. Literals are checked against it and parameters are tagged by it. A column that the catalog
does not know is not an error: nothing is known of its type, and it is passed on.
-/

namespace NetQuery

/-- The type of a column. -/
inductive ColumnType where
  | text
  | textArray
  | bool
  | int
  | intArray
  | float
  | timestamptz
  | date
deriving DecidableEq, Repr

namespace ColumnType

/-- All column types. -/
def all : List ColumnType :=
  [.text, .textArray, .bool, .int, .intArray, .float, .timestamptz, .date]

/-- The name of the type. -/
def name : ColumnType → String
  | .text => "text"
  | .textArray => "text_array"
  | .bool => "bool"
  | .int => "int"
  | .intArray => "int_array"
  | .float => "float"
  | .timestamptz => "timestamptz"
  | .date => "date"

/-- The type of one entry of an array column; every other type stands for itself. -/
def element : ColumnType → ColumnType
  | .textArray => .text
  | .intArray => .int
  | type => type

end ColumnType

/-- A column of an entity. -/
structure Column where
  /-- The name, in small letters. -/
  name : String
  /-- The type of what it holds. -/
  type : ColumnType
deriving DecidableEq, Repr

namespace Entity

/-- The columns of an entity, in the order in which they are shown. -/
def columns : Entity → List Column
  | .devices =>
    [⟨"device_id", .text⟩, ⟨"ip", .text⟩, ⟨"mac", .text⟩, ⟨"hostname", .text⟩,
      ⟨"poller_id", .text⟩, ⟨"agent_id", .text⟩, ⟨"discovery_sources", .textArray⟩,
      ⟨"is_available", .bool⟩, ⟨"first_seen", .timestamptz⟩, ⟨"last_seen", .timestamptz⟩,
      ⟨"device_type", .text⟩]
  | .flows =>
    [⟨"timestamp", .timestamptz⟩, ⟨"src_addr", .text⟩, ⟨"dst_addr", .text⟩, ⟨"src_port", .int⟩,
      ⟨"dst_port", .int⟩, ⟨"protocol", .int⟩, ⟨"bytes", .int⟩, ⟨"packets", .int⟩,
      ⟨"sampler_address", .text⟩]
  | .traps =>
    [⟨"timestamp", .timestamptz⟩, ⟨"agent_address", .text⟩, ⟨"oid", .text⟩, ⟨"severity", .text⟩,
      ⟨"message", .text⟩]
  | .connections =>
    [⟨"timestamp", .timestamptz⟩, ⟨"src_ip", .text⟩, ⟨"dst_ip", .text⟩, ⟨"src_port", .int⟩,
      ⟨"dst_port", .int⟩, ⟨"protocol", .text⟩, ⟨"state", .text⟩]
  | .logs =>
    [⟨"timestamp", .timestamptz⟩, ⟨"trace_id", .text⟩, ⟨"span_id", .text⟩,
      ⟨"severity_text", .text⟩, ⟨"severity_number", .int⟩, ⟨"body", .text⟩,
      ⟨"service_name", .text⟩]
  | .services =>
    [⟨"timestamp", .timestamptz⟩, ⟨"poller_id", .text⟩, ⟨"agent_id", .text⟩,
      ⟨"service_name", .text⟩, ⟨"service_type", .text⟩, ⟨"available", .bool⟩, ⟨"message", .text⟩,
      ⟨"partition", .text⟩]
  | .interfaces =>
    [⟨"timestamp", .timestamptz⟩, ⟨"device_id", .text⟩, ⟨"device_ip", .text⟩, ⟨"if_index", .int⟩,
      ⟨"if_name", .text⟩, ⟨"if_descr", .text⟩, ⟨"if_speed", .int⟩, ⟨"if_phys_address", .text⟩,
      ⟨"ip_addresses", .textArray⟩, ⟨"if_admin_status", .int⟩, ⟨"if_oper_status", .int⟩]
  | .deviceUpdates =>
    [⟨"timestamp", .timestamptz⟩, ⟨"device_id", .text⟩, ⟨"ip", .text⟩, ⟨"mac", .text⟩,
      ⟨"hostname", .text⟩, ⟨"discovery_source", .text⟩, ⟨"agent_id", .text⟩, ⟨"poller_id", .text⟩,
      ⟨"available", .bool⟩]
  | .icmpResults =>
    [⟨"timestamp", .timestamptz⟩, ⟨"poller_id", .text⟩, ⟨"agent_id", .text⟩, ⟨"target", .text⟩,
      ⟨"response_time_ns", .int⟩, ⟨"packet_loss", .float⟩, ⟨"available", .bool⟩]
  | .snmpResults =>
    [⟨"timestamp", .timestamptz⟩, ⟨"poller_id", .text⟩, ⟨"agent_id", .text⟩, ⟨"target", .text⟩,
      ⟨"oid", .text⟩, ⟨"value", .text⟩]
  | .sweepResults =>
    [⟨"timestamp", .timestamptz⟩, ⟨"ip", .text⟩, ⟨"mac", .text⟩, ⟨"hostname", .text⟩,
      ⟨"available", .bool⟩, ⟨"port", .int⟩, ⟨"poller_id", .text⟩, ⟨"agent_id", .text⟩,
      ⟨"partition", .text⟩, ⟨"discovery_source", .text⟩]
  | .events =>
    [⟨"event_timestamp", .timestamptz⟩, ⟨"id", .text⟩, ⟨"event_type", .text⟩, ⟨"source", .text⟩,
      ⟨"subject", .text⟩, ⟨"severity", .text⟩, ⟨"short_message", .text⟩]
  | .pollers =>
    [⟨"poller_id", .text⟩, ⟨"status", .text⟩, ⟨"first_seen", .timestamptz⟩,
      ⟨"last_seen", .timestamptz⟩, ⟨"is_healthy", .bool⟩, ⟨"agent_count", .int⟩,
      ⟨"checker_count", .int⟩]
  | .cpuMetrics =>
    [⟨"timestamp", .timestamptz⟩, ⟨"poller_id", .text⟩, ⟨"agent_id", .text⟩, ⟨"host_id", .text⟩,
      ⟨"core_id", .int⟩, ⟨"usage_percent", .float⟩, ⟨"frequency_hz", .float⟩]
  | .diskMetrics =>
    [⟨"timestamp", .timestamptz⟩, ⟨"poller_id", .text⟩, ⟨"agent_id", .text⟩, ⟨"host_id", .text⟩,
      ⟨"mount_point", .text⟩, ⟨"device_name", .text⟩, ⟨"used_bytes", .int⟩, ⟨"total_bytes", .int⟩,
      ⟨"usage_percent", .float⟩]
  | .memoryMetrics =>
    [⟨"timestamp", .timestamptz⟩, ⟨"poller_id", .text⟩, ⟨"agent_id", .text⟩, ⟨"host_id", .text⟩,
      ⟨"used_bytes", .int⟩, ⟨"total_bytes", .int⟩, ⟨"usage_percent", .float⟩]
  | .snmpMetrics =>
    [⟨"timestamp", .timestamptz⟩, ⟨"poller_id", .text⟩, ⟨"device_id", .text⟩,
      ⟨"metric_name", .text⟩, ⟨"metric_type", .text⟩, ⟨"value", .float⟩, ⟨"if_index", .int⟩,
      ⟨"partition", .text⟩]
  | .otelTraceSummaries =>
    [⟨"timestamp", .timestamptz⟩, ⟨"trace_id", .text⟩, ⟨"root_span_id", .text⟩,
      ⟨"root_span_name", .text⟩, ⟨"root_service_name", .text⟩, ⟨"root_span_kind", .int⟩,
      ⟨"duration_ms", .float⟩, ⟨"status_code", .int⟩, ⟨"service_set", .textArray⟩,
      ⟨"span_count", .int⟩, ⟨"error_count", .int⟩]
  | .otelSpansEnriched =>
    [⟨"timestamp", .timestamptz⟩, ⟨"trace_id", .text⟩, ⟨"span_id", .text⟩,
      ⟨"parent_span_id", .text⟩, ⟨"name", .text⟩, ⟨"kind", .int⟩, ⟨"service_name", .text⟩,
      ⟨"duration_ms", .float⟩, ⟨"status_code", .int⟩, ⟨"is_root", .bool⟩]

/-- The type of the column with a given name, in any case, if the catalog knows it. -/
def columnType? (e : Entity) (name : String) : Option ColumnType :=
  (e.columns.find? fun column => Text.agree column.name name).map Column.type

end Entity

end NetQuery
