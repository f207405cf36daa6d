import Mathlib
import MultiPlayerGame.Server.RequestHandler

/-!
# Exporting the metrics

The metrics leave the process in two ways.  `toJson`, part of `RequestHandler`, answers
`GET_METRICS`; `toPrometheusText` answers the HTTP requests of the monitoring, on a thread of its
own.  Both load one atomic after another while the request handlers go on counting.

`Query` is what runs at the same time: calls of `handle` and exports.

## The text

`toPrometheusText` builds its text while it loads.  No load depends on what has been written, so the
model loads first and prints afterwards, and returns the values next to the text: what is said about
the values in `Results.Exports` is said about the numbers that stand in the text.  The one number
that is a double there, the sum of the latencies, is printed by a parameter.

The bucket without a bound is loaded after the finite ones and before the count, and the gauge
before everything else.  The order of the loads is what the relations between the values depend on.
-/

namespace MultiPlayerGame

open Bytes (ascii digits)

namespace MetricsRegistry

/-- What `toPrometheusText` loads.  The values come from different moments, which is what
`Results.Exports` is about. -/
structure Scrape where
  activePlayers : Int32
  requestsTotal : Nat
  successfulRequests : Nat
  failedRequests : Nat
  /-- The finite buckets of the histogram. -/
  latencyBuckets : List Nat
  latencyInf : Nat
  latencySum : List Int
  latencyCount : Nat
  redisCacheHits : Nat
  redisCacheMisses : Nat
  dbOperationsTotal : Nat

/-- The loop over the buckets. -/
def loadBuckets : List (Fin 14) → Handler (List Nat)
  | [] => pure []
  | i :: rest => do
    let count ← invoke (.load (.latencyBucketCounts i))
    let counts ← loadBuckets rest
    return count :: counts

/-- The loads of `toPrometheusText`, in its order.  Each of them is a step of its own, and requests
may be counted in between. -/
def loadAll : Handler Scrape := do
  let activePlayers ← invoke .loadActivePlayers
  let requestsTotal ← invoke (.load .requestsTotal)
  let successfulRequests ← invoke (.load .successfulRequests)
  let failedRequests ← invoke (.load .failedRequests)
  let latencyBuckets ← loadBuckets (finiteBuckets.map Prod.fst)
  let latencyInf ← invoke (.load (.latencyBucketCounts (Fin.last 13)))
  let latencySum ← invoke .loadLatencies
  let latencyCount ← invoke (.load .latencyCount)
  let redisCacheHits ← invoke (.load .redisCacheHits)
  let redisCacheMisses ← invoke (.load .redisCacheMisses)
  let dbOperationsTotal ← invoke (.load .dbOperationsTotal)
  return { activePlayers, requestsTotal, successfulRequests, failedRequests, latencyBuckets,
           latencyInf, latencySum, latencyCount, redisCacheHits, redisCacheMisses,
           dbOperationsTotal }

/-! ## The text -/

/-- The bounds as `std::fixed` with five digits prints them. -/
def bucketLabels : List String :=
  ["0.00010", "0.00025", "0.00050", "0.00100", "0.00250", "0.00500", "0.01000", "0.02500",
    "0.05000", "0.10000", "0.25000", "0.50000", "1.00000"]

/-- The two comment lines in front of a metric. -/
def heading (name kind help : String) : Bytes :=
  ascii "# HELP game_server_" ++ ascii name ++ ascii " " ++ ascii help ++
    ascii "\n# TYPE game_server_"
    ++ ascii name ++ ascii " " ++ ascii kind ++ ascii "\n"

/-- A metric with one value. -/
def metricText (name kind help : String) (value : Bytes) : Bytes :=
  heading name kind help ++ ascii "game_server_" ++ ascii name ++ ascii " " ++ value ++ ascii "\n\n"

/-- A line of the histogram. -/
def bucketText (label : String) (count : Nat) : Bytes :=
  ascii "game_server_request_latency_seconds_bucket\x7ble=\"" ++ ascii label ++ ascii "\"\x7d "
    ++ digits count ++ ascii "\n"

/-- The text.  The blank lines and the headings are those of the exposition format. -/
def Scrape.text (fp : Doubles) (v : Scrape) : Bytes :=
  metricText "active_players" "gauge" "Number of currently connected active players"
      (toString v.activePlayers) ++
    metricText "requests_total" "counter" "Total number of gameplay requests received"
      (digits v.requestsTotal) ++
    metricText "successful_requests" "counter" "Total successful gameplay requests"
      (digits v.successfulRequests) ++
    metricText "failed_requests" "counter" "Total failed or invalid gameplay requests"
      (digits v.failedRequests) ++
    heading "request_latency_seconds" "histogram" "Request processing turnaround latency" ++
    (List.zipWith bucketText bucketLabels v.latencyBuckets).flatten ++
    bucketText "+Inf" v.latencyInf ++
    ascii "game_server_request_latency_seconds_sum " ++ fp.sumSeconds v.latencySum ++ ascii "\n" ++
    ascii "game_server_request_latency_seconds_count " ++ digits v.latencyCount ++ ascii "\n\n" ++
    metricText "redis_cache_hits_total" "counter" "Cache hit count" (digits v.redisCacheHits) ++
    metricText "redis_cache_misses_total" "counter" "Cache miss count"
      (digits v.redisCacheMisses) ++
    metricText "database_operations_total" "counter" "Total database queries executed"
      (digits v.dbOperationsTotal)

/-- The text, next to the values that stand in it. -/
def toPrometheusText (fp : Doubles) : Handler (Scrape × Bytes) := do
  let v ← loadAll
  return (v, v.text fp)

end MetricsRegistry

/-! ## Exports among requests -/

/-- What is asked of the process.  Exports and calls of `handle` run beside each other on the same
counters. -/
inductive Query where
  | handle (rawJson : Bytes)
  | prometheus
  | json

/-- What it answers. -/
inductive Answer where
  | handled (response : Option Bytes)
  | prometheus (v : MetricsRegistry.Scrape) (text : Bytes)
  | json (m : Json)

def Query.serve (cfg : Config) (fp : Doubles) : Query → Handler Answer
  | handle rawJson => do
    let response ← RequestHandler.handle cfg fp rawJson
    return .handled response
  | prometheus => do
    let r ← MetricsRegistry.toPrometheusText fp
    return .prometheus r.1 r.2
  | json => do
    let m ← MetricsRegistry.toJson fp
    return .json m

end MultiPlayerGame
