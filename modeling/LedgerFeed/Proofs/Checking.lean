import Mathlib.Tactic.ByContra
import LedgerFeed.Config.File
import LedgerFeed.Engine.Basic
import LedgerFeed.Toml.Document

/-! Which configurations can run: those that meet seven conditions. Each condition that is not met
has one fault, the faults come in the order of the conditions, and an engine is built exactly if
there is none. For endpoints that passed, clients can always be made. -/

namespace LedgerFeed

variable {urls : Net.UrlReader}

def IsEndpoint (urls : Net.UrlReader) (url : String) : Prop :=
  urls.scheme url = .ok "http" ∨ urls.scheme url = .ok "https"

theorem endpointFault?_eq_none_iff {url : String} :
    endpointFault? urls url = none ↔ IsEndpoint urls url := by
  unfold endpointFault? IsEndpoint
  cases urls.scheme url with
  | error fault => simp
  | ok scheme =>
    simp only [Except.ok.injEq, ite_eq_left_iff, reduceCtorEq, imp_false, Classical.not_not]

instance (urls : Net.UrlReader) (url : String) : Decidable (IsEndpoint urls url) :=
  decidable_of_iff (endpointFault? urls url = none) endpointFault?_eq_none_iff

def EndpointFault.AppliesTo (urls : Net.UrlReader) (url : String) : EndpointFault → Prop
  | noUrl why => urls.scheme url = .error why
  | scheme name => urls.scheme url = .ok name ∧ name ≠ "http" ∧ name ≠ "https"

theorem EndpointFault.appliesTo_of_eq_some {url : String} {fault : EndpointFault}
    (h : endpointFault? urls url = some fault) : fault.AppliesTo urls url := by
  unfold endpointFault? at h
  split at h
  · rename_i hscheme
    exact Option.some.inj h ▸ hscheme
  · rename_i name hscheme
    obtain ⟨hother, hsame⟩ := Option.ite_none_left_eq_some.mp h
    exact Option.some.inj hsame ▸ ⟨hscheme, not_or.mp hother⟩

/-- What a fault says of a configuration. Faults of clients say nothing of it. -/
def ConfigFault.AppliesTo (urls : Net.UrlReader) (c : EngineConfig) : ConfigFault → Prop
  | liveUrl url fault => url = c.liveUrl ∧ fault.AppliesTo urls url
  | archiveUrl url fault => c.archiveUrl = some url ∧ fault.AppliesTo urls url
  | pageSize size => size = c.pageSize ∧ (size = 0 ∨ EngineConfig.maxPageSize < size)
  | pagingWait paging live => paging = c.pagingWait ∧ live = c.liveWait ∧ live < paging
  | dedupCapacity => c.dedupCapacity = 0
  | timeoutSeconds => c.timeoutSeconds = 0
  | filters fault => filterSetFault? c.filters = some fault
  | metricsAddress _ | liveClient _ | archiveClient _ => False

namespace EngineConfig

namespace Condition

def field : Condition → String
  | liveUrl => "live_url"
  | archiveUrl => "archive_url"
  | pageSize => "page_size"
  | pagingWait => "paging_interval_ms"
  | dedupCapacity => "dedup_capacity"
  | timeoutSeconds => "rpc_timeout_secs"
  | filters => "filters"

def Holds (urls : Net.UrlReader) (c : EngineConfig) : Condition → Prop
  | liveUrl => IsEndpoint urls c.liveUrl
  | archiveUrl => ∀ url, c.archiveUrl = some url → IsEndpoint urls url
  | pageSize => 1 ≤ c.pageSize ∧ c.pageSize ≤ 10000
  | pagingWait => c.pagingWait ≤ c.liveWait
  | dedupCapacity => 1 ≤ c.dedupCapacity
  | timeoutSeconds => 1 ≤ c.timeoutSeconds
  | filters => filterSetFault? c.filters = none

variable {c : EngineConfig} {k : Condition} {fault : ConfigFault}

theorem fault?_eq_none_iff : k.fault? urls c = none ↔ k.Holds urls c := by
  have hif {p : Prop} [Decidable p] {fault : ConfigFault} :
      (if p then some fault else none) = none ↔ ¬p := by simp
  cases k with
  | liveUrl => rw [fault?, Option.map_eq_none_iff, endpointFault?_eq_none_iff, Holds]
  | archiveUrl =>
    simp only [fault?, Option.bind_eq_none_iff, Option.map_eq_none_iff, endpointFault?_eq_none_iff,
      Holds]
  | pageSize =>
    rw [fault?, hif, maxPageSize, Holds]
    grind
  | pagingWait => rw [fault?, hif, Holds, UInt64.not_lt]
  | dedupCapacity =>
    rw [fault?, hif, Holds]
    grind
  | timeoutSeconds =>
    rw [fault?, hif, Holds]
    grind
  | filters => rw [fault?, Option.map_eq_none_iff, Holds]

instance (urls : Net.UrlReader) (c : EngineConfig) (k : Condition) : Decidable (k.Holds urls c) :=
  decidable_of_iff (k.fault? urls c = none) fault?_eq_none_iff

theorem appliesTo_of_fault? (h : k.fault? urls c = some fault) :
    fault.field = k.field ∧ fault.AppliesTo urls c := by
  cases k with
  | liveUrl =>
    obtain ⟨why, hwhy, rfl⟩ := Option.map_eq_some_iff.mp h
    exact ⟨rfl, rfl, EndpointFault.appliesTo_of_eq_some hwhy⟩
  | archiveUrl =>
    obtain ⟨url, hurl, hfault⟩ := Option.bind_eq_some_iff.mp h
    obtain ⟨why, hwhy, rfl⟩ := Option.map_eq_some_iff.mp hfault
    exact ⟨rfl, hurl, EndpointFault.appliesTo_of_eq_some hwhy⟩
  | pageSize =>
    obtain ⟨hsize, hsame⟩ := Option.ite_none_right_eq_some.mp h
    obtain rfl := Option.some.inj hsame
    exact ⟨rfl, rfl, hsize⟩
  | pagingWait =>
    obtain ⟨hwaits, hsame⟩ := Option.ite_none_right_eq_some.mp h
    obtain rfl := Option.some.inj hsame
    exact ⟨rfl, rfl, rfl, hwaits⟩
  | dedupCapacity =>
    obtain ⟨hcapacity, hsame⟩ := Option.ite_none_right_eq_some.mp h
    obtain rfl := Option.some.inj hsame
    exact ⟨rfl, hcapacity⟩
  | timeoutSeconds =>
    obtain ⟨htimeout, hsame⟩ := Option.ite_none_right_eq_some.mp h
    obtain rfl := Option.some.inj hsame
    exact ⟨rfl, htimeout⟩
  | filters =>
    obtain ⟨why, hwhy, rfl⟩ := Option.map_eq_some_iff.mp h
    exact ⟨rfl, hwhy⟩

end Condition

variable {c : EngineConfig}

theorem Condition.mem_all (k : Condition) : k ∈ all := by
  cases k <;> simp [all]

theorem faults_eq_nil_iff : c.faults urls = [] ↔ ∀ k : Condition, k.Holds urls c := by
  rw [faults, List.filterMap_eq_nil_iff]
  constructor
  · intro h k
    exact Condition.fault?_eq_none_iff.mp (h k k.mem_all)
  · intro h k _
    exact Condition.fault?_eq_none_iff.mpr (h k)

theorem appliesTo_of_mem_faults {fault : ConfigFault} (h : fault ∈ c.faults urls) :
    fault.AppliesTo urls c := by
  rw [faults, List.mem_filterMap] at h
  obtain ⟨k, -, hfault⟩ := h
  exact (Condition.appliesTo_of_fault? hfault).2

theorem map_field_filterMap (ks : List Condition) :
    (ks.filterMap (Condition.fault? urls c)).map ConfigFault.field =
      (ks.filter fun k => ¬k.Holds urls c).map Condition.field := by
  induction ks with
  | nil => rfl
  | cons k ks ih =>
    cases hfault : k.fault? urls c with
    | none =>
      have hholds : k.Holds urls c := Condition.fault?_eq_none_iff.mp hfault
      rw [List.filterMap_cons_none hfault, List.filter_cons_of_neg (by simpa using hholds), ih]
    | some fault =>
      have hbroken : ¬k.Holds urls c := by
        rw [← Condition.fault?_eq_none_iff, hfault]
        exact nofun
      have hfield : fault.field = k.field := (Condition.appliesTo_of_fault? hfault).1
      rw [List.filterMap_cons_some hfault, List.filter_cons_of_pos (by simpa using hbroken),
        List.map_cons, List.map_cons, ih, hfield]

theorem map_field_faults (urls : Net.UrlReader) (c : EngineConfig) :
    (c.faults urls).map ConfigFault.field =
      (Condition.all.filter fun k => ¬k.Holds urls c).map Condition.field :=
  map_field_filterMap Condition.all

theorem nodup_map_field_faults (urls : Net.UrlReader) (c : EngineConfig) :
    ((c.faults urls).map ConfigFault.field).Nodup := by
  have hall : (Condition.all.map Condition.field).Nodup := by decide
  rw [map_field_faults]
  exact hall.sublist (List.filter_sublist.map _)

end EngineConfig

namespace Engine

theorem ofConfig_of_faults_eq_nil {config : EngineConfig} (h : config.faults urls = [])
    (live : Option String) (decoder : Decoder) :
    ofConfig urls config live decoder =
      .ok { config
            urls
            decoder
            live := live.getD config.liveUrl
            archive := config.archiveUrl
            filters := config.filters
            control := .initial } := by
  have hholds := EngineConfig.faults_eq_nil_iff.mp h
  have hlive : connectLive urls config live = .ok (live.getD config.liveUrl) := by
    cases live with
    | some endpoint => rfl
    | none => exact connect_of_endpointFault? (endpointFault?_eq_none_iff.mpr (hholds .liveUrl)) ..
  have harchive : connectArchive urls config = .ok config.archiveUrl := by
    unfold connectArchive
    cases hurl : config.archiveUrl with
    | none => rfl
    | some url =>
      have hfault := endpointFault?_eq_none_iff.mpr (hholds .archiveUrl url hurl)
      simp only [connect_of_endpointFault? hfault, Except.map]
  rw [ofConfig, if_pos h, hlive, harchive]
  rfl

theorem ofConfig_of_faults_ne_nil {config : EngineConfig} (h : config.faults urls ≠ [])
    (live : Option String) (decoder : Decoder) :
    ofConfig urls config live decoder = .error (.invalidConfig (config.faults urls)) :=
  if_neg h

end Engine

def FeedConfig.spelled? (toml : String → Option Json.Value) (text : String) : Option FeedConfig :=
  (toml text).bind (ofValue? Toml.dialect)

/-- A configuration is without faults exactly if it meets all conditions. Else each condition that
is not met is reported once, in the order of the conditions, and truthfully; the address for metrics
comes last, if metrics are asked for. Reading a configuration reports the same faults, and so does
building an engine, which fails for no other reason: making a client never fails by then. -/
theorem configuration_checked (toml : String → Option Json.Value) (urls : Net.UrlReader)
    (c : EngineConfig) (o : Observability) :
    (c.faults urls = [] ↔ ∀ k : EngineConfig.Condition, k.Holds urls c) ∧
    (c.faults urls).map ConfigFault.field =
      (EngineConfig.Condition.all.filter fun k => ¬k.Holds urls c).map
        EngineConfig.Condition.field ∧
    ((c.faults urls).map ConfigFault.field).Nodup ∧
    (∀ fault ∈ c.faults urls, fault.AppliesTo urls c) ∧
    (⟨c, o⟩ : FeedConfig).faults urls =
      c.faults urls ++
        (if o.metricsEnabled = true ∧ Net.isSocketAddress o.metricsAddress = false then
          [.metricsAddress o.metricsAddress]
        else []) ∧
    (∀ text, FeedConfig.spelled? toml text = some ⟨c, o⟩ →
      FeedConfig.parse toml urls text =
        if (⟨c, o⟩ : FeedConfig).faults urls = [] then .ok ⟨c, o⟩
        else .error (.invalid ((⟨c, o⟩ : FeedConfig).faults urls))) ∧
    ∀ live decoder,
      ((∃ e, Engine.ofConfig urls c live decoder = .ok e) ↔ c.faults urls = []) ∧
      (∀ error, Engine.ofConfig urls c live decoder = .error error →
        error = .invalidConfig (c.faults urls)) ∧
      ∀ failure,
        Engine.ofConfig urls c live decoder ≠ .error (.invalidConfig [.liveClient failure]) ∧
        Engine.ofConfig urls c live decoder ≠ .error (.invalidConfig [.archiveClient failure]) := by
  have hreported : ∀ live decoder error, Engine.ofConfig urls c live decoder = .error error →
      error = .invalidConfig (c.faults urls) := by
    intro live decoder error h
    by_cases hfaults : c.faults urls = []
    · rw [Engine.ofConfig_of_faults_eq_nil hfaults] at h
      cases h
    · rw [Engine.ofConfig_of_faults_ne_nil hfaults] at h
      exact (Except.error.inj h).symm
  have hclient : ∀ live decoder fault, ¬fault.AppliesTo urls c →
      Engine.ofConfig urls c live decoder ≠ .error (.invalidConfig [fault]) := by
    intro live decoder fault hfault h
    have hfaults : [fault] = c.faults urls :=
      IngestError.invalidConfig.inj (hreported live decoder _ h)
    exact hfault (EngineConfig.appliesTo_of_mem_faults (hfaults ▸ List.mem_singleton_self fault))
  refine ⟨EngineConfig.faults_eq_nil_iff, EngineConfig.map_field_faults urls c,
    EngineConfig.nodup_map_field_faults urls c,
    fun _ => EngineConfig.appliesTo_of_mem_faults, ?_, ?_, ?_⟩
  · rw [FeedConfig.faults, Observability.faults]
    simp
  · intro text h
    rw [FeedConfig.spelled?] at h
    rw [FeedConfig.parse, h]
  · intro live decoder
    refine ⟨⟨?_, ?_⟩, hreported live decoder, fun failure => ⟨?_, ?_⟩⟩
    · rintro ⟨e, hbuilt⟩
      by_contra hfaults
      rw [Engine.ofConfig_of_faults_ne_nil hfaults] at hbuilt
      cases hbuilt
    · intro hfaults
      exact ⟨_, Engine.ofConfig_of_faults_eq_nil hfaults live decoder⟩
    · exact hclient live decoder _ id
    · exact hclient live decoder _ id

def mistakenText : String :=
  "engine=\x7blive_url='',page_size=0\x7d\n" ++
    "observability=\x7bmetrics_enabled=true,metrics_address=''\x7d"

def mistakenEngine : EngineConfig :=
  { EngineConfig.default with liveUrl := "", pageSize := 0 }

theorem mistaken_checked :
    (mistakenEngine.faults (.ofList [])).map ConfigFault.field = ["live_url", "page_size"] ∧
      FeedConfig.parse Toml.read? (.ofList []) mistakenText =
        .error (.invalid (mistakenEngine.faults (.ofList []) ++ [.metricsAddress ""])) := by
  have hspelled : FeedConfig.spelled? Toml.read? mistakenText =
      some ⟨mistakenEngine, "info", true, ""⟩ := by
    decide +kernel
  have hbroken : (EngineConfig.Condition.all.filter fun k => ¬k.Holds (.ofList []) mistakenEngine) =
      [.liveUrl, .pageSize] := by
    decide +kernel
  obtain ⟨-, hfields, -, -, hfaults, hparse, -⟩ :=
    configuration_checked Toml.read? (.ofList []) mistakenEngine ⟨"info", true, ""⟩
  have hall : (⟨mistakenEngine, "info", true, ""⟩ : FeedConfig).faults (.ofList []) =
      mistakenEngine.faults (.ofList []) ++ [.metricsAddress ""] :=
    hfaults.trans (congrArg _ (if_pos (by decide +kernel)))
  refine ⟨by rw [hfields, hbroken]; rfl, ?_⟩
  rw [hparse _ hspelled, hall, if_neg (List.concat_ne_nil _ _)]

end LedgerFeed
