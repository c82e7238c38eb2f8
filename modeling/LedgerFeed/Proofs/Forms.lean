import LedgerFeed.Config.Wire
import LedgerFeed.Proofs.Printing

/-! Written forms. Of all that is written as JSON, the text is read back as the value: fields that
are left out are those whose default is the value, and a second spelling of a field says the same.
What was read from any text is therefore written in one way. -/

namespace LedgerFeed

open Json (Value Dialect)

namespace Json

structure Form (α : Type) where
  write : α → Value
  read? : Value → Option α

namespace Form

variable {α : Type} {form : Form α}

def text (form : Form α) (a : α) : String :=
  (form.write a).print

def ofText? (form : Form α) (text : String) : Option α :=
  (Json.read? text).bind form.read?

def rewritten? (form : Form α) (text : String) : Option String :=
  (form.ofText? text).map form.text

def list (form : Form α) : Form (List α) where
  write items := .array (items.map form.write)
  read? := Value.list? form.read?

structure Faithful (form : Form α) : Prop where
  plain : ∀ a, (form.write a).Plain
  reads : ∀ a, form.read? (form.write a) = some a

namespace Faithful

theorem list (h : form.Faithful) : form.list.Faithful where
  plain items := by
    refine Value.plain_array fun v hv => ?_
    obtain ⟨a, -, rfl⟩ := List.mem_map.mp hv
    exact h.plain a
  reads items := mapM_map_eq_some h.reads items

theorem ofText?_text (h : form.Faithful) (a : α) : form.ofText? (form.text a) = some a := by
  have hread : Json.read? (form.write a).print = some (form.write a) := read?_print (h.plain a)
  rw [ofText?, text, hread]
  exact h.reads a

theorem rewritten?_text (h : form.Faithful) (a : α) :
    form.rewritten? (form.text a) = some (form.text a) := by
  rw [rewritten?, h.ofText?_text]
  rfl

theorem rewritten?_rewritten (h : form.Faithful) {text text' : String}
    (hrewritten : form.rewritten? text = some text') :
    form.rewritten? text' = some text' := by
  obtain ⟨a, -, rfl⟩ := Option.map_eq_some_iff.mp hrewritten
  exact h.rewritten?_text a

end Faithful
end Form

/-! Numbers of 64 bits. -/

namespace Value

@[simp] theorem uint64?_ofUInt64 (n : UInt64) : (ofUInt64 n).uint64? = some n := by
  have hsize : n.toNat < UInt64.size := n.toNat_lt
  simp [ofUInt64, uint64?, hsize]

@[simp] theorem plain_ofUInt64 (n : UInt64) : (ofUInt64 n).Plain := plain_integer _

/-! Other spellings. -/

def respelled (old new : String) : Value → Value
  | .object fields => .object (fields.map fun f => (if f.1 = old then new else f.1, f.2))
  | v => v

theorem filter_respelled {old new : String} {spellings : List String}
    (h : old ∈ spellings ↔ new ∈ spellings) (fields : List (String × Value)) :
    ((fields.map fun f => (if f.1 = old then new else f.1, f.2)).filter
        fun f => spellings.contains f.1) =
      (fields.filter fun f => spellings.contains f.1).map
        fun f => (if f.1 = old then new else f.1, f.2) := by
  have hkept : ∀ f : String × Value,
      spellings.contains (if f.1 = old then new else f.1) = spellings.contains f.1 := by
    intro f
    split
    · rename_i hold
      rw [hold, Bool.eq_iff_iff, List.contains_iff_mem, List.contains_iff_mem]
      exact h.symm
    · rfl
  rw [List.filter_map]
  simp only [Function.comp_def, hkept]

def field? (fields : List (String × Value)) (spellings : List String) : Option (Option Value) :=
  match fields.filter fun f => spellings.contains f.1 with
  | [] => some none
  | [f] => some (some f.2)
  | _ => none

theorem recordIn?_object (dialect : Dialect) (names : List (List String))
    (fields : List (String × Value)) :
    (object fields).recordIn? dialect names = names.mapM (field? fields) := rfl

theorem field?_respelled {old new : String} {spellings : List String}
    (h : old ∈ spellings ↔ new ∈ spellings) (fields : List (String × Value)) :
    field? (fields.map fun f => (if f.1 = old then new else f.1, f.2)) spellings =
      field? fields spellings := by
  rw [field?, field?, filter_respelled h]
  cases fields.filter fun f => spellings.contains f.1 with
  | nil => rfl
  | cons f fs => cases fs <;> rfl

/-- The fields of a record do not depend on which of its spellings a field has. -/
theorem recordIn?_respelled {names : List (List String)} {old new : String}
    (h : ∀ spellings ∈ names, (old ∈ spellings ↔ new ∈ spellings)) (dialect : Dialect) (v : Value) :
    (v.respelled old new).recordIn? dialect names = v.recordIn? dialect names := by
  cases v with
  | object fields =>
    rw [respelled, recordIn?_object, recordIn?_object]
    induction names with
    | nil => rfl
    | cons spellings names ih =>
      have hfirst := field?_respelled (h spellings List.mem_cons_self) fields
      have hothers := ih fun spellings hmem => h spellings (List.mem_cons_of_mem _ hmem)
      rw [List.mapM_cons, List.mapM_cons, hfirst, hothers]
  | null | bool | integer | real | string | array | undenoted => rfl

/-! Fields that may be left out. -/

/-- A field that is written only if it has a value. -/
def given (name : String) (v : Option Value) : List (String × Value) :=
  v.toList.map (name, ·)

theorem field?_given {name : String} {spellings : List String} (h : name ∈ spellings)
    (v : Option Value) : field? (given name v) spellings = some v := by
  cases v with
  | none => rfl
  | some v => simp [field?, given, h]

theorem filter_given {name : String} {spellings : List String} (h : name ∉ spellings)
    (v : Option Value) : ((given name v).filter fun f => spellings.contains f.1) = [] := by
  cases v with
  | none => rfl
  | some v => simp [given, h]

theorem field?_append_given {name : String} {spellings : List String} (h : name ∉ spellings)
    (fields : List (String × Value)) (v : Option Value) :
    field? (fields ++ given name v) spellings = field? fields spellings := by
  rw [field?, field?, List.filter_append, filter_given h, List.append_nil]

theorem field?_given_append {name : String} {spellings : List String} (h : name ∉ spellings)
    (fields : List (String × Value)) (v : Option Value) :
    field? (given name v ++ fields) spellings = field? fields spellings := by
  rw [field?, field?, List.filter_append, filter_given h, List.nil_append]

theorem plain_given {name : String} {v : Option Value} (h : ∀ w ∈ v, w.Plain) :
    ∀ f ∈ given name v, f.2.Plain := by
  intro f hf
  obtain ⟨w, hw, rfl⟩ := List.mem_map.mp hf
  exact h w (Option.mem_toList.mp hw)

end Value
end Json

open Json.Value

namespace EventFilter

def listed? (items : List Value) : Option Value :=
  if items.isEmpty then none else some (.array items)

theorem listField_eq (name : String) (items : List Value) :
    listField name items = given name (listed? items) := by
  unfold listField listed?
  split <;> rfl

theorem toJson_eq (f : EventFilter) :
    f.toJson = .object (given "type" (f.eventType.map EventType.toJson) ++
      given "contractIds" (listed? (f.contractIds.map .string)) ++
      given "topics" (listed? (f.topics.map ofTexts))) := by
  rw [toJson, listField_eq, listField_eq]
  cases f.eventType <;> rfl

theorem recordIn?_toJson (dialect : Dialect) (f : EventFilter) :
    f.toJson.recordIn? dialect [["type"], ["contractIds", "contract_ids"], ["topics"]] =
      some [f.eventType.map EventType.toJson, listed? (f.contractIds.map .string),
        listed? (f.topics.map ofTexts)] := by
  rw [toJson_eq, recordIn?_object]
  simp only [List.mapM_cons, List.mapM_nil]
  rw [field?_append_given (by decide), field?_append_given (by decide), field?_given (by decide),
    field?_append_given (by decide), field?_given_append (by decide), field?_given (by decide),
    List.append_assoc, field?_given_append (by decide), field?_given_append (by decide),
    field?_given (by decide)]
  rfl

theorem optional_listed? {α : Type} {write : α → Value} {read : Value → Option α}
    (h : ∀ a, read (write a) = some a) (l : List α) :
    optional [] (list? read) (listed? (l.map write)) = some l := by
  cases l with
  | nil => rfl
  | cons a l => exact Json.mapM_map_eq_some h (a :: l)

theorem ofValue?_toJson (dialect : Dialect) (f : EventFilter) :
    ofValue? dialect f.toJson = some f := by
  have htype : optional none (nullable? (EventType.ofValue? dialect))
      (f.eventType.map EventType.toJson) = some f.eventType := by
    cases f.eventType with
    | none => rfl
    | some t => simp [Value.optional, nullable?, EventType.toJson, EventType.ofValue?]
  have hcontracts := optional_listed? (fun text => (rfl : (Value.string text).text? = some text))
    f.contractIds
  have htopics := optional_listed? list?_ofTexts f.topics
  rw [ofValue?, recordIn?_toJson]
  simp only [Option.bind_eq_bind, Option.bind_some, htype, hcontracts, htopics]
  rfl

theorem plain_listed? {items : List Value} (h : ∀ v ∈ items, v.Plain) :
    ∀ w ∈ listed? items, w.Plain := by
  intro w hw
  obtain ⟨-, hitems⟩ := Option.ite_none_left_eq_some.mp hw
  obtain rfl := Option.some.inj hitems
  exact plain_array h

theorem plain_fields (f : EventFilter) :
    ∀ field ∈ given "type" (f.eventType.map EventType.toJson) ++
      given "contractIds" (listed? (f.contractIds.map .string)) ++
      given "topics" (listed? (f.topics.map ofTexts)), field.2.Plain := by
  have htype : ∀ w ∈ f.eventType.map EventType.toJson, w.Plain := by
    intro w hw
    obtain ⟨t, -, rfl⟩ := Option.map_eq_some_iff.mp hw
    exact plain_string t.name
  have hcontracts : ∀ w ∈ listed? (f.contractIds.map .string), w.Plain := by
    refine plain_listed? fun v hv => ?_
    obtain ⟨text, -, rfl⟩ := List.mem_map.mp hv
    exact plain_string text
  have htopics : ∀ w ∈ listed? (f.topics.map ofTexts), w.Plain := by
    refine plain_listed? fun v hv => ?_
    obtain ⟨pattern, -, rfl⟩ := List.mem_map.mp hv
    exact plain_ofTexts pattern
  intro field hfield
  rw [List.mem_append, List.mem_append] at hfield
  rcases hfield with (hfield | hfield) | hfield
  · exact plain_given htype field hfield
  · exact plain_given hcontracts field hfield
  · exact plain_given htopics field hfield

theorem plain_toJson (f : EventFilter) : f.toJson.Plain := by
  rw [toJson_eq]
  exact plain_object f.plain_fields

def form : Json.Form EventFilter := ⟨toJson, ofJson?⟩

theorem faithful : form.Faithful := ⟨plain_toJson, ofValue?_toJson .json⟩

def respelled (f : EventFilter) : Value :=
  f.toJson.respelled "contractIds" "contract_ids"

theorem plain_respelled (f : EventFilter) : f.respelled.Plain := by
  rw [respelled, toJson_eq]
  refine plain_object fun field hfield => ?_
  obtain ⟨g, hg, rfl⟩ := List.mem_map.mp hfield
  exact f.plain_fields g hg

theorem ofJson?_respelled (v : Value) :
    ofJson? (v.respelled "contractIds" "contract_ids") = ofJson? v := by
  have hnames : ∀ spellings ∈ [["type"], ["contractIds", "contract_ids"], ["topics"]],
      ("contractIds" ∈ spellings ↔ "contract_ids" ∈ spellings) := by decide
  rw [ofJson?, ofValue?, ofValue?, recordIn?_respelled hnames]

end EventFilter

namespace RawEvent

theorem plain_toJson (e : RawEvent) : e.toJson.Plain := by
  apply plain_object
  simp

theorem ofJson?_toJson (e : RawEvent) : ofJson? e.toJson = some e := by
  have hrecord : e.toJson.record?
      [["type"], ["ledger"], ["ledgerClosedAt"], ["contractId"], ["id"], ["topic"], ["value"],
        ["inSuccessfulContractCall"], ["txHash"]] =
      some [some (.string e.typeName), some (ofUInt32 e.ledger), some (.string e.ledgerClosedAt),
        some (.string e.contractId), some (.string e.id), some (ofTexts e.topic),
        some (.string e.value), some (.bool e.inSuccessfulContractCall),
        some (.string e.txHash)] :=
    record?_object (by simp)
  rw [ofJson?, hrecord]
  simp [required, Value.optional, text?, bool?]

def form : Json.Form RawEvent := ⟨toJson, ofJson?⟩

theorem faithful : form.Faithful := ⟨plain_toJson, ofJson?_toJson⟩

end RawEvent

namespace RawLedger

def form : Json.Form RawLedger := ⟨toJson, ofJson?⟩

theorem faithful : form.Faithful where
  plain l := by
    have hevents : (Value.array (l.events.map RawEvent.toJson)).Plain :=
      RawEvent.faithful.list.plain l.events
    apply plain_object
    simp [hevents]
  reads l := by
    have hevents : (Value.array (l.events.map RawEvent.toJson)).list? RawEvent.ofJson? =
        some l.events :=
      RawEvent.faithful.list.reads l.events
    have hrecord : l.toJson.record?
        [["sequence"], ["hash"], ["ledgerCloseTime"], ["metadataXdr"], ["events"]] =
        some [some (ofUInt32 l.sequence), some (.string l.hash), some (.string l.closeTime),
          some (.string l.metadata), some (.array (l.events.map RawEvent.toJson))] :=
      record?_object (by simp)
    change ofJson? l.toJson = some l
    rw [ofJson?, hrecord]
    simp [required, Value.optional, text?, hevents]

end RawLedger

namespace ContractEvent

def form : Json.Form ContractEvent := ⟨toJson, ofJson?⟩

theorem faithful : form.Faithful := ⟨plain_toJson, ofJson?_toJson⟩

end ContractEvent

namespace EngineConfig

def form : Json.Form EngineConfig := ⟨toJson, ofJson?⟩

theorem faithful : form.Faithful where
  plain c := by
    have hfilters : (Value.array (c.filters.map EventFilter.toJson)).Plain :=
      EventFilter.faithful.list.plain c.filters
    apply plain_object
    simp [hfilters]
  reads c := by
    have hfilters : (Value.array (c.filters.map EventFilter.toJson)).list?
        (EventFilter.ofValue? .json) = some c.filters :=
      EventFilter.faithful.list.reads c.filters
    have hrecord : c.toJson.recordIn? .json
        [["live_url"], ["archive_url"], ["filters"], ["page_size"], ["live_wait_interval_ms"],
          ["paging_interval_ms"], ["archival_interval_ms"], ["skip_wait_if_behind"],
          ["retention_safety_margin"], ["dedup_capacity"], ["rpc_timeout_secs"]] =
        some [some (.string c.liveUrl), some (ofOption .string c.archiveUrl),
          some (.array (c.filters.map EventFilter.toJson)), some (ofUInt32 c.pageSize),
          some (ofUInt64 c.liveWait), some (ofUInt64 c.pagingWait), some (ofUInt64 c.archivalWait),
          some (.bool c.skipWaitIfBehind), some (ofUInt32 c.retentionMargin),
          some (ofUInt64 c.dedupCapacity), some (ofUInt64 c.timeoutSeconds)] :=
      record?_object (by simp)
    change ofValue? .json c.toJson = some c
    rw [ofValue?, hrecord]
    simp [Value.optional, text?, bool?, hfilters]

end EngineConfig

namespace Observability

def form : Json.Form Observability := ⟨toJson, ofValue? .json⟩

theorem faithful : form.Faithful where
  plain o := by
    apply plain_object
    simp
  reads o := by
    have hrecord : o.toJson.recordIn? .json
        [["log_level"], ["metrics_enabled"], ["metrics_address"]] =
        some [some (.string o.logLevel), some (.bool o.metricsEnabled),
          some (.string o.metricsAddress)] :=
      record?_object (by simp)
    change ofValue? .json o.toJson = some o
    rw [ofValue?, hrecord]
    simp [Value.optional, text?, bool?]

end Observability

namespace FeedConfig

def form : Json.Form FeedConfig := ⟨toJson, ofJson?⟩

theorem faithful : form.Faithful where
  plain c := by
    have hengine : c.engine.toJson.Plain := EngineConfig.faithful.plain c.engine
    have hobservability : c.observability.toJson.Plain :=
      Observability.faithful.plain c.observability
    apply plain_object
    simp [hengine, hobservability]
  reads c := by
    have hengine : EngineConfig.ofValue? .json c.engine.toJson = some c.engine :=
      EngineConfig.faithful.reads c.engine
    have hobservability : Observability.ofValue? .json c.observability.toJson =
        some c.observability :=
      Observability.faithful.reads c.observability
    have hrecord : c.toJson.recordIn? .json [["engine"], ["observability"]] =
        some [some c.engine.toJson, some c.observability.toJson] :=
      record?_object (by simp)
    change ofValue? .json c.toJson = some c
    rw [ofValue?, hrecord]
    simp [Value.optional, hengine, hobservability]

end FeedConfig

/-- The types whose values are sent, received or kept as JSON. -/
inductive Written where
  | rawEvent
  | rawLedger
  | contractEvent
  | eventFilter
  | engineConfig
  | feedConfig

namespace Written

def Carrier : Written → Type
  | rawEvent => RawEvent
  | rawLedger => RawLedger
  | contractEvent => ContractEvent
  | eventFilter => EventFilter
  | engineConfig => EngineConfig
  | feedConfig => FeedConfig

def form : (w : Written) → Json.Form w.Carrier
  | rawEvent => RawEvent.form
  | rawLedger => RawLedger.form
  | contractEvent => ContractEvent.form
  | eventFilter => EventFilter.form
  | engineConfig => EngineConfig.form
  | feedConfig => FeedConfig.form

theorem faithful (w : Written) : w.form.Faithful := by
  cases w with
  | rawEvent => exact RawEvent.faithful
  | rawLedger => exact RawLedger.faithful
  | contractEvent => exact ContractEvent.faithful
  | eventFilter => exact EventFilter.faithful
  | engineConfig => exact EngineConfig.faithful
  | feedConfig => exact FeedConfig.faithful

end Written

/-- Whatever is written of any of the types, its text is read back as the value, and a filter also
from a text with the other spelling of its contracts, which makes no difference to any text. What
any text is rewritten to, is rewritten to itself. -/
theorem text_reads_back :
    (∀ (w : Written) (a : w.Carrier), w.form.ofText? (w.form.text a) = some a) ∧
    (∀ f : EventFilter, EventFilter.form.ofText? f.respelled.print = some f) ∧
    (∀ v : Value,
      EventFilter.ofJson? (v.respelled "contractIds" "contract_ids") = EventFilter.ofJson? v) ∧
    ∀ (w : Written) (text text' : String), w.form.rewritten? text = some text' →
      w.form.rewritten? text' = some text' := by
  refine ⟨fun w => w.faithful.ofText?_text, fun f => ?_, EventFilter.ofJson?_respelled,
    fun w _ _ => w.faithful.rewritten?_rewritten⟩
  have hread : Json.read? f.respelled.print = some f.respelled :=
    Json.read?_print f.plain_respelled
  rw [Json.Form.ofText?, hread, Option.bind_some]
  exact (EventFilter.ofJson?_respelled f.toJson).trans (EventFilter.faithful.reads f)

def looseText : String :=
  "\x7b \"note\":1, \"topics\":[], \"contract_ids\":[\"C\"] \x7d"

theorem looseText_rewritten :
    EventFilter.form.rewritten? looseText = some "\x7b\"contractIds\":[\"C\"]\x7d" ∧
      EventFilter.form.rewritten? "\x7b\"contractIds\":[\"C\"]\x7d" =
        some "\x7b\"contractIds\":[\"C\"]\x7d" := by
  have hrewritten : EventFilter.form.rewritten? looseText =
      some "\x7b\"contractIds\":[\"C\"]\x7d" := by
    decide +kernel
  exact ⟨hrewritten, text_reads_back.2.2.2 .eventFilter _ _ hrewritten⟩

end LedgerFeed
