import ClearwaterSnmp.StatHandlers

namespace ClearwaterSnmp

/-- `NodeData`, with `stat_to_handler` as its entries. -/
structure NodeData where
  name : String
  rootOid : Oid
  stats : List String
  statToHandler : List (String × StatHandler)
deriving DecidableEq

namespace NodeData

/-- The handlers of a node, which share the tree of their plugin. -/
def handlers (node : NodeData) : List StatHandler := node.statToHandler.map Prod.snd

/-! ## The node data of the plugins -/

/-- `1.2.826.0.1.1578918.9`, which every OID of the plugins starts with. -/
def clearwaterOid : Oid := [1, 2, 826, 0, 1, 1578918, 9]

def bareHandler (suffix : Oid) : StatHandler := ⟨.bare, clearwaterOid ++ suffix⟩

def accumulatedHandler (suffix : Oid) : StatHandler :=
  ⟨.accumulatedWithCount, clearwaterOid ++ suffix⟩

/-- `cdiv_node_data` -/
def cdiv : NodeData where
  name := "sprout"
  rootOid := clearwaterOid ++ [7]
  stats := ["cdiv_total", "cdiv_unconditional", "cdiv_busy", "cdiv_not_registered",
    "cdiv_no_answer", "cdiv_not_reachable"]
  statToHandler :=
    [("cdiv_total", bareHandler [7, 1, 1, 2]),
      ("cdiv_unconditional", bareHandler [7, 1, 1, 3]),
      ("cdiv_busy", bareHandler [7, 1, 1, 4]),
      ("cdiv_not_registered", bareHandler [7, 1, 1, 5]),
      ("cdiv_no_answer", bareHandler [7, 1, 1, 6]),
      ("cdiv_not_reachable", bareHandler [7, 1, 1, 7])]

/-- `memento_http_node_data` -/
def mementoHttp : NodeData where
  name := "memento"
  rootOid := clearwaterOid ++ [8, 2]
  stats := ["http_incoming_requests", "http_rejected_overload", "http_latency_us",
    "cassandra_read_latency", "record_size", "record_length"]
  statToHandler :=
    [("http_incoming_requests", bareHandler [8, 2, 1, 1, 2]),
      ("http_rejected_overload", bareHandler [8, 2, 1, 1, 3]),
      ("http_latency_us", accumulatedHandler [8, 2, 2]),
      ("cassandra_read_latency", accumulatedHandler [8, 2, 3]),
      ("record_size", accumulatedHandler [8, 2, 4]),
      ("record_length", accumulatedHandler [8, 2, 5])]

/-- `memento_auth_node_data` -/
def mementoAuth : NodeData where
  name := "memento"
  rootOid := clearwaterOid ++ [8, 3]
  stats := ["auth_challenges", "auth_attempts", "auth_successes", "auth_failures", "auth_stales"]
  statToHandler :=
    [("auth_challenges", bareHandler [8, 3, 2, 1, 2]),
      ("auth_attempts", bareHandler [8, 3, 2, 1, 3]),
      ("auth_successes", bareHandler [8, 3, 2, 1, 4]),
      ("auth_failures", bareHandler [8, 3, 2, 1, 5]),
      ("auth_stales", bareHandler [8, 3, 2, 1, 6])]

/-- `memento_as_node_data` -/
def mementoAs : NodeData where
  name := "sprout"
  rootOid := clearwaterOid ++ [8, 1]
  stats := ["memento_completed_calls", "memento_failed_calls", "memento_not_recorded_overload",
    "memento_cassandra_read_latency", "memento_cassandra_write_latency"]
  statToHandler :=
    [("memento_completed_calls", bareHandler [8, 1, 1, 1, 2]),
      ("memento_failed_calls", bareHandler [8, 1, 1, 1, 3]),
      ("memento_not_recorded_overload", bareHandler [8, 1, 1, 1, 4]),
      ("memento_cassandra_read_latency", accumulatedHandler [8, 1, 2]),
      ("memento_cassandra_write_latency", accumulatedHandler [8, 1, 3])]

/-- `astaire_oid` -/
def astaireOid : Oid := clearwaterOid ++ [9]

/-- `astaire_node_data` -/
def astaire : NodeData where
  name := "astaire"
  rootOid := astaireOid
  stats := ["astaire_global", "astaire_connections"]
  statToHandler :=
    [("astaire_global", ⟨.astaireGlobal, astaireOid⟩),
      ("astaire_connections", ⟨.astaireConnection, astaireOid⟩)]

end NodeData
end ClearwaterSnmp
