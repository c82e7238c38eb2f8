import LedgerFeed.Event.Basic

/-! Event filters. A filter set is a disjunction, where the empty set lets everything pass; within
a filter the type, the contracts and the topics must all fit. -/

namespace LedgerFeed

/-- A pattern over an event's topics: `*` stands for any one topic, `**` at the end for any rest. -/
abbrev TopicPattern := List String

namespace TopicPattern

def anyTopic : String := "*"

def anyRest : String := "**"

def fits : TopicPattern → List String → Bool
  | [], [] => true
  | [], _ :: _ => false
  | segment :: segments, topics =>
    if segment = anyRest then true
    else
      match topics with
      | [] => false
      | topic :: rest =>
        if segment = anyTopic || segment = topic then fits segments rest else false

@[simp] theorem fits_anyRest (segments : TopicPattern) (topics : List String) :
    fits (anyRest :: segments) topics = true := by
  cases topics <;> simp [fits]

theorem fits_cons {segment : String} (h : segment ≠ anyRest) (segments : TopicPattern)
    (topic : String) (topics : List String) :
    fits (segment :: segments) (topic :: topics) =
      ((segment = anyTopic ∨ segment = topic) && fits segments topics) := by
  by_cases hs : segment = anyTopic ∨ segment = topic <;> simp [fits, h, hs]

end TopicPattern

structure EventFilter where
  eventType : Option EventType
  contractIds : List String
  topics : List TopicPattern
  deriving DecidableEq

namespace EventFilter

def any : EventFilter := ⟨none, [], []⟩

def contract (ids : List String) : EventFilter := ⟨some .contract, ids, []⟩

def withTopic (f : EventFilter) (pattern : TopicPattern) : EventFilter :=
  { f with topics := f.topics ++ [pattern] }

def matchesType (f : EventFilter) (e : ContractEvent) : Bool :=
  match f.eventType with
  | none => true
  | some t => t = e.eventType

def matchesContract (f : EventFilter) (e : ContractEvent) : Bool :=
  f.contractIds.isEmpty ||
    match e.contractId with
    | none => false
    | some id => f.contractIds.contains id

def matchesTopics (f : EventFilter) (e : ContractEvent) : Bool :=
  f.topics.isEmpty || f.topics.any fun pattern => TopicPattern.fits pattern e.topics

def accepts (f : EventFilter) (e : ContractEvent) : Bool :=
  f.matchesType e && f.matchesContract e && f.matchesTopics e

end EventFilter

def wanted (filters : List EventFilter) (e : ContractEvent) : Bool :=
  filters.isEmpty || filters.any fun f => f.accepts e

@[simp] theorem wanted_nil (e : ContractEvent) : wanted [] e = true := rfl

theorem wanted_eq_true_iff {filters : List EventFilter} {e : ContractEvent} :
    wanted filters e = true ↔ filters = [] ∨ ∃ f ∈ filters, f.accepts e = true := by
  simp [wanted]

end LedgerFeed
