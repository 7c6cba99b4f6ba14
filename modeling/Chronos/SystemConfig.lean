import Chronos.JsonCodec
import Chronos.RiskParameterUpdate

/-!
# The configuration and its JSON form

Each part of the configuration has a check, an encoder and a decoder. An
encoder writes every field; a decoder demands some keys and for the others
keeps the default where the key is missing. Reading what was written gives the
configuration back, so no key of an encoder is foreign to its decoder.
-/

set_option autoImplicit false

namespace Chronos
open JsonCodec (JsonError Conversions)
variable {F : Type} [Conversions F]

structure ExchangeConfig where
  name : String := ""
  websocketUrl : String := ""
  restUrl : String := ""
  userStreamUrl : String := ""
  proxyHost : String := ""
  proxyPort : UInt16 := 0
  apiKey : String := ""
  apiSecret : String := ""
  symbols : List String := []
  reconnectIntervalMs : UInt32 := 5000
  heartbeatIntervalMs : UInt32 := 30000
  timeoutMs : UInt32 := 10000
  deriving DecidableEq

namespace ExchangeConfig

def validate (config : ExchangeConfig) : Bool :=
  if config.name.isEmpty then false
  else if config.websocketUrl.isEmpty then false
  else if config.symbols.isEmpty then false
  else if config.reconnectIntervalMs = 0 ∨ config.reconnectIntervalMs > 60000 then false
  else if config.heartbeatIntervalMs = 0 ∨ config.heartbeatIntervalMs > 120000 then false
  else if config.timeoutMs = 0 ∨ config.timeoutMs > 60000 then false
  else true

def toJson (config : ExchangeConfig) : Json F := .object
  [("name",JsonCodec.string.toJson config.name),
    ("websocket_url",JsonCodec.string.toJson config.websocketUrl),
    ("rest_url",JsonCodec.string.toJson config.restUrl),
    ("user_stream_url",JsonCodec.string.toJson config.userStreamUrl),
    ("proxy_host",JsonCodec.string.toJson config.proxyHost),
    ("proxy_port",JsonCodec.uint16.toJson config.proxyPort),
    ("api_key",JsonCodec.string.toJson config.apiKey),
    ("api_secret",JsonCodec.string.toJson config.apiSecret),
    ("symbols",JsonCodec.string.list.toJson config.symbols),
    ("reconnect_interval_ms",JsonCodec.uint32.toJson config.reconnectIntervalMs),
    ("heartbeat_interval_ms",JsonCodec.uint32.toJson config.heartbeatIntervalMs),
    ("timeout_ms",JsonCodec.uint32.toJson config.timeoutMs)]

def fromJson (j : Json F) : Except JsonError ExchangeConfig := do
  let config : ExchangeConfig := {}
  let name ← JsonCodec.string.readAt "name" j
  let websocketUrl ← JsonCodec.string.readAt "websocket_url" j
  let apiKey ← JsonCodec.string.readAt "api_key" j
  let apiSecret ← JsonCodec.string.readAt "api_secret" j
  let symbols ← JsonCodec.string.list.readAt "symbols" j
  let restUrl ← JsonCodec.string.readIfContains "rest_url" j config.restUrl
  let userStreamUrl ← JsonCodec.string.readIfContains "user_stream_url" j config.userStreamUrl
  let proxyHost ← JsonCodec.string.readIfContains "proxy_host" j config.proxyHost
  let proxyPort ← JsonCodec.uint16.readIfContains "proxy_port" j config.proxyPort
  let reconnectIntervalMs ←
    JsonCodec.uint32.readIfContains "reconnect_interval_ms" j config.reconnectIntervalMs
  let heartbeatIntervalMs ←
    JsonCodec.uint32.readIfContains "heartbeat_interval_ms" j config.heartbeatIntervalMs
  let timeoutMs ← JsonCodec.uint32.readIfContains "timeout_ms" j config.timeoutMs
  return { config with
    name, websocketUrl, restUrl, userStreamUrl, proxyHost, proxyPort, apiKey, apiSecret,
    symbols, reconnectIntervalMs, heartbeatIntervalMs, timeoutMs }

theorem fromJson_toJson (config : ExchangeConfig) :
    fromJson (toJson config : Json F) = .ok config := by
  simp [fromJson, toJson, bind, Except.bind, pure, Except.pure]

def codec : JsonCodec F ExchangeConfig := ⟨toJson,fromJson,fromJson_toJson⟩

end ExchangeConfig

structure StrategyConfig (F : Type) where
  name : String := ""
  libraryPath : String := ""
  parameters : Json F := .null
  symbolIds : List UInt32 := []
  enabled : Bool := true

namespace StrategyConfig

def validate (config : StrategyConfig F) : Bool :=
  if config.name.isEmpty then false
  else if config.symbolIds.isEmpty then false
  else true

def toJson (config : StrategyConfig F) : Json F := .object
  [("name",JsonCodec.string.toJson config.name),
    ("library_path",JsonCodec.string.toJson config.libraryPath),
    ("parameters",JsonCodec.json.toJson config.parameters),
    ("symbol_ids",JsonCodec.uint32.list.toJson config.symbolIds),
    ("enabled",JsonCodec.boolean.toJson config.enabled)]

def fromJson (j : Json F) : Except JsonError (StrategyConfig F) := do
  let config : StrategyConfig F := {}
  let name ← JsonCodec.string.readAt "name" j
  let libraryPath ← JsonCodec.string.readAt "library_path" j
  let parameters ← JsonCodec.json.readAt "parameters" j
  let symbolIds ← JsonCodec.uint32.list.readAt "symbol_ids" j
  let enabled ← JsonCodec.boolean.readIfContains "enabled" j config.enabled
  return { config with name, libraryPath, parameters, symbolIds, enabled }

theorem fromJson_toJson (config : StrategyConfig F) : fromJson config.toJson = .ok config := by
  simp [fromJson, toJson, bind, Except.bind, pure, Except.pure]

def codec : JsonCodec F (StrategyConfig F) := ⟨toJson,fromJson,fromJson_toJson⟩

end StrategyConfig

/-- `RiskParameters` with a limit of orders that is a 32-bit word. -/
abbrev RiskConfig (F : Type) := { p : RiskParameters F // p.maxOrdersPerSecond < 2^32 }

namespace RiskConfig

theorem defaultRate_fits : 100 < 2^32 := by norm_num

def defaults : RiskConfig F where
  val := {
    maxOrderValue := Conversions.ofInt 100000
    maxPositionValue := Conversions.ofInt 500000
    maxOrdersPerSecond := 100
    maxTotalPositionValue := Conversions.ofInt 1000000
    minAvailableCapital := Conversions.ofInt 10000
    maxDrawdownPercent := Conversions.ofInt 20 }
  property := defaultRate_fits

def validate [LE F] [LT F] [DecidableLE F] [DecidableLT F] (params : RiskConfig F) : Bool :=
  let p := params.val
  if p.maxOrderValue ≤ Conversions.ofInt 0 then false
  else if p.maxPositionValue ≤ Conversions.ofInt 0 then false
  else if p.maxOrdersPerSecond = 0 ∨ p.maxOrdersPerSecond > 10000 then false
  else if p.maxTotalPositionValue ≤ Conversions.ofInt 0 then false
  else if p.minAvailableCapital < Conversions.ofInt 0 then false
  else if p.maxDrawdownPercent ≤ Conversions.ofInt 0 ∨
    p.maxDrawdownPercent > Conversions.ofInt 100 then false
  else if p.maxOrderValue > p.maxPositionValue then false
  else if p.maxPositionValue > p.maxTotalPositionValue then false
  else true

def toJson (params : RiskConfig F) : Json F := .object
  [("max_order_value",JsonCodec.double.toJson params.val.maxOrderValue),
    ("max_position_value",JsonCodec.double.toJson params.val.maxPositionValue),
    ("max_orders_per_second",
      JsonCodec.uint32.toJson (UInt32.ofNat params.val.maxOrdersPerSecond)),
    ("max_total_position_value",JsonCodec.double.toJson params.val.maxTotalPositionValue),
    ("min_available_capital",JsonCodec.double.toJson params.val.minAvailableCapital),
    ("max_drawdown_percent",JsonCodec.double.toJson params.val.maxDrawdownPercent)]

def fromJson (j : Json F) : Except JsonError (RiskConfig F) := do
  let maxOrderValue ← JsonCodec.double.readAt "max_order_value" j
  let maxPositionValue ← JsonCodec.double.readAt "max_position_value" j
  let maxOrdersPerSecond ← JsonCodec.uint32.readAt "max_orders_per_second" j
  let maxTotalPositionValue ← JsonCodec.double.readAt "max_total_position_value" j
  let minAvailableCapital ← JsonCodec.double.readAt "min_available_capital" j
  let maxDrawdownPercent ← JsonCodec.double.readAt "max_drawdown_percent" j
  return ⟨⟨maxOrderValue,maxPositionValue,maxOrdersPerSecond.toNat,maxTotalPositionValue,
    minAvailableCapital,maxDrawdownPercent⟩,maxOrdersPerSecond.toNat_lt⟩

theorem fromJson_toJson (params : RiskConfig F) : fromJson params.toJson = .ok params := by
  have hword : (UInt32.ofNat params.val.maxOrdersPerSecond).toNat =
      params.val.maxOrdersPerSecond := UInt32.toNat_ofNat_of_lt' params.property
  simp only [fromJson, toJson, bind, Except.bind, pure, Except.pure, JsonCodec.readAt_cons,
    JsonCodec.roundTrip, String.reduceEq, if_true, if_false, hword]

def codec : JsonCodec F (RiskConfig F) := ⟨toJson,fromJson,fromJson_toJson⟩

end RiskConfig

structure LogConfig where
  logDir : String := "./logs"
  bufferSize : UInt64 := 65536
  flushIntervalMs : UInt32 := 100
  retentionDays : UInt32 := 30
  compressOldLogs : Bool := true
  enableTickLogging : Bool := true
  enableOrderLogging : Bool := true
  enableFillLogging : Bool := true
  enableSnapshotLogging : Bool := false
  deriving DecidableEq

namespace LogConfig

def validate (config : LogConfig) : Bool :=
  if config.logDir.isEmpty then false
  else if config.bufferSize = 0 ∨ config.bufferSize > 10485760 then false
  else if config.flushIntervalMs = 0 ∨ config.flushIntervalMs > 10000 then false
  else if config.retentionDays = 0 ∨ config.retentionDays > 3650 then false
  else true

def toJson (config : LogConfig) : Json F := .object
  [("log_dir",JsonCodec.string.toJson config.logDir),
    ("buffer_size",JsonCodec.uint64.toJson config.bufferSize),
    ("flush_interval_ms",JsonCodec.uint32.toJson config.flushIntervalMs),
    ("retention_days",JsonCodec.uint32.toJson config.retentionDays),
    ("compress_old_logs",JsonCodec.boolean.toJson config.compressOldLogs),
    ("enable_tick_logging",JsonCodec.boolean.toJson config.enableTickLogging),
    ("enable_order_logging",JsonCodec.boolean.toJson config.enableOrderLogging),
    ("enable_fill_logging",JsonCodec.boolean.toJson config.enableFillLogging),
    ("enable_snapshot_logging",JsonCodec.boolean.toJson config.enableSnapshotLogging)]

def fromJson (j : Json F) : Except JsonError LogConfig := do
  let config : LogConfig := {}
  let logDir ← JsonCodec.string.readAt "log_dir" j
  let bufferSize ← JsonCodec.uint64.readIfContains "buffer_size" j config.bufferSize
  let flushIntervalMs ← JsonCodec.uint32.readIfContains "flush_interval_ms" j config.flushIntervalMs
  let retentionDays ← JsonCodec.uint32.readIfContains "retention_days" j config.retentionDays
  let compressOldLogs ← JsonCodec.boolean.readIfContains "compress_old_logs" j config.compressOldLogs
  let enableTickLogging ←
    JsonCodec.boolean.readIfContains "enable_tick_logging" j config.enableTickLogging
  let enableOrderLogging ←
    JsonCodec.boolean.readIfContains "enable_order_logging" j config.enableOrderLogging
  let enableFillLogging ←
    JsonCodec.boolean.readIfContains "enable_fill_logging" j config.enableFillLogging
  let enableSnapshotLogging ←
    JsonCodec.boolean.readIfContains "enable_snapshot_logging" j config.enableSnapshotLogging
  return { config with
    logDir, bufferSize, flushIntervalMs, retentionDays, compressOldLogs, enableTickLogging,
    enableOrderLogging, enableFillLogging, enableSnapshotLogging }

theorem fromJson_toJson (config : LogConfig) : fromJson (toJson config : Json F) = .ok config := by
  simp [fromJson, toJson, bind, Except.bind, pure, Except.pure]

def codec : JsonCodec F LogConfig := ⟨toJson,fromJson,fromJson_toJson⟩

end LogConfig

structure ZMQConfig where
  publishEndpoint : String := "tcp://*:5555"
  highWaterMark : UInt32 := 10000
  lingerMs : UInt32 := 1000
  deriving DecidableEq

namespace ZMQConfig

def validate (config : ZMQConfig) : Bool :=
  if config.publishEndpoint.isEmpty then false
  else if config.highWaterMark = 0 ∨ config.highWaterMark > 1000000 then false
  else if config.lingerMs > 30000 then false
  else true

def toJson (config : ZMQConfig) : Json F := .object
  [("publish_endpoint",JsonCodec.string.toJson config.publishEndpoint),
    ("high_water_mark",JsonCodec.uint32.toJson config.highWaterMark),
    ("linger_ms",JsonCodec.uint32.toJson config.lingerMs)]

def fromJson (j : Json F) : Except JsonError ZMQConfig := do
  let config : ZMQConfig := {}
  let publishEndpoint ← JsonCodec.string.readAt "publish_endpoint" j
  let highWaterMark ← JsonCodec.uint32.readIfContains "high_water_mark" j config.highWaterMark
  let lingerMs ← JsonCodec.uint32.readIfContains "linger_ms" j config.lingerMs
  return { config with publishEndpoint, highWaterMark, lingerMs }

theorem fromJson_toJson (config : ZMQConfig) : fromJson (toJson config : Json F) = .ok config := by
  simp [fromJson, toJson, bind, Except.bind, pure, Except.pure]

def codec : JsonCodec F ZMQConfig := ⟨toJson,fromJson,fromJson_toJson⟩

end ZMQConfig

structure MonitoringConfig where
  enableMetrics : Bool := true
  metricsPort : UInt16 := 9090
  enableHealthCheck : Bool := true
  healthCheckPort : UInt16 := 8080
  metricsUpdateIntervalMs : UInt32 := 1000
  deriving DecidableEq

namespace MonitoringConfig

/-- A port is compared with 65535 as an `int`. -/
def validate (config : MonitoringConfig) : Bool :=
  if config.enableMetrics ∧ (config.metricsPort = 0 ∨ config.metricsPort.toNat > 65535) then false
  else if config.enableHealthCheck ∧
    (config.healthCheckPort = 0 ∨ config.healthCheckPort.toNat > 65535) then false
  else if config.enableMetrics ∧ config.enableHealthCheck ∧
    config.metricsPort = config.healthCheckPort then false
  else if config.metricsUpdateIntervalMs = 0 ∨ config.metricsUpdateIntervalMs > 60000 then false
  else true

def toJson (config : MonitoringConfig) : Json F := .object
  [("enable_metrics",JsonCodec.boolean.toJson config.enableMetrics),
    ("metrics_port",JsonCodec.uint16.toJson config.metricsPort),
    ("enable_health_check",JsonCodec.boolean.toJson config.enableHealthCheck),
    ("health_check_port",JsonCodec.uint16.toJson config.healthCheckPort),
    ("metrics_update_interval_ms",JsonCodec.uint32.toJson config.metricsUpdateIntervalMs)]

def fromJson (j : Json F) : Except JsonError MonitoringConfig := do
  let config : MonitoringConfig := {}
  let enableMetrics ← JsonCodec.boolean.readIfContains "enable_metrics" j config.enableMetrics
  let metricsPort ← JsonCodec.uint16.readIfContains "metrics_port" j config.metricsPort
  let enableHealthCheck ←
    JsonCodec.boolean.readIfContains "enable_health_check" j config.enableHealthCheck
  let healthCheckPort ← JsonCodec.uint16.readIfContains "health_check_port" j config.healthCheckPort
  let metricsUpdateIntervalMs ←
    JsonCodec.uint32.readIfContains "metrics_update_interval_ms" j config.metricsUpdateIntervalMs
  return { config with
    enableMetrics, metricsPort, enableHealthCheck, healthCheckPort, metricsUpdateIntervalMs }

theorem fromJson_toJson (config : MonitoringConfig) :
    fromJson (toJson config : Json F) = .ok config := by
  simp [fromJson, toJson, bind, Except.bind, pure, Except.pure]

def codec : JsonCodec F MonitoringConfig := ⟨toJson,fromJson,fromJson_toJson⟩

end MonitoringConfig

structure SystemConfig (F : Type) [Conversions F] where
  exchanges : List ExchangeConfig := []
  strategies : List (StrategyConfig F) := []
  riskParameters : RiskConfig F := RiskConfig.defaults
  logConfig : LogConfig := {}
  zmqConfig : ZMQConfig := {}
  monitoringConfig : MonitoringConfig := {}
  initialCapital : F := Conversions.ofInt 1000000
  stateFile : String := "./state/system_state.json"

namespace SystemConfig

def validate [LE F] [LT F] [DecidableLE F] [DecidableLT F] (config : SystemConfig F) : Bool :=
  if config.initialCapital ≤ Conversions.ofInt 0 then false
  else if config.stateFile.isEmpty then false
  else if config.exchanges.isEmpty then false
  else if !config.exchanges.all ExchangeConfig.validate then false
  else if config.strategies.isEmpty then false
  else if !config.strategies.all StrategyConfig.validate then false
  else if !config.riskParameters.validate then false
  else if !config.logConfig.validate then false
  else if !config.zmqConfig.validate then false
  else if !config.monitoringConfig.validate then false
  else true

def toJson (config : SystemConfig F) : Json F := .object
  [("exchanges",ExchangeConfig.codec.list.toJson config.exchanges),
    ("strategies",StrategyConfig.codec.list.toJson config.strategies),
    ("risk_parameters",RiskConfig.codec.toJson config.riskParameters),
    ("log_config",LogConfig.codec.toJson config.logConfig),
    ("zmq_config",ZMQConfig.codec.toJson config.zmqConfig),
    ("monitoring_config",MonitoringConfig.codec.toJson config.monitoringConfig),
    ("initial_capital",JsonCodec.double.toJson config.initialCapital),
    ("state_file",JsonCodec.string.toJson config.stateFile)]

def fromJson (j : Json F) : Except JsonError (SystemConfig F) := do
  let config : SystemConfig F := {}
  let exchanges ← ExchangeConfig.codec.list.readAt "exchanges" j
  let strategies ← StrategyConfig.codec.list.readAt "strategies" j
  let riskParameters ← RiskConfig.codec.readAt "risk_parameters" j
  let logConfig ← LogConfig.codec.readAt "log_config" j
  let zmqConfig ← ZMQConfig.codec.readIfContains "zmq_config" j config.zmqConfig
  let monitoringConfig ←
    MonitoringConfig.codec.readIfContains "monitoring_config" j config.monitoringConfig
  let initialCapital ← JsonCodec.double.readIfContains "initial_capital" j config.initialCapital
  let stateFile ← JsonCodec.string.readIfContains "state_file" j config.stateFile
  return { config with
    exchanges, strategies, riskParameters, logConfig, zmqConfig, monitoringConfig, initialCapital,
    stateFile }

theorem fromJson_toJson (config : SystemConfig F) : fromJson config.toJson = .ok config := by
  simp [fromJson, toJson, bind, Except.bind, pure, Except.pure]

/-- A configuration that was written is read back whole, and checked alike. -/
theorem config_round_trip [LE F] [LT F] [DecidableLE F] [DecidableLT F] (config : SystemConfig F) :
    ∃ config', fromJson config.toJson = .ok config' ∧ config' = config ∧
      config'.validate = config.validate :=
  ⟨config,fromJson_toJson config,rfl,rfl⟩

/-- The defaults of the parts that need nothing from the user pass their checks. -/
theorem defaults_valid : LogConfig.validate {} = true ∧ ZMQConfig.validate {} = true ∧
    MonitoringConfig.validate {} = true := by
  decide +kernel

end SystemConfig
end Chronos
