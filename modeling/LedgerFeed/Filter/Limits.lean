import LedgerFeed.Filter.Basic

/-! The limits that nodes set on filter sets, and the first fault of a set that breaks them. -/

namespace LedgerFeed

namespace EventFilter

def maxFilters : Nat := 5
def maxContractIds : Nat := 5
def maxPatterns : Nat := 5
def maxSegments : Nat := 4

end EventFilter

inductive FilterFault where
  | tooManyContractIds (count : Nat)
  | emptyContractId
  | tooManyPatterns (count : Nat)
  | emptyPattern
  | restNotLast
  | tooManySegments (count : Nat)
  deriving DecidableEq

inductive FilterSetFault where
  | tooManyFilters (count : Nat)
  | inFilter (index : Nat) (fault : FilterFault)
  deriving DecidableEq

def FilterFault.message : FilterFault → String
  | tooManyContractIds count =>
    s!"{count} contract ids exceeds the limit of {EventFilter.maxContractIds}"
  | emptyContractId => "contract id must not be empty"
  | tooManyPatterns count =>
    s!"{count} topic patterns exceeds the limit of {EventFilter.maxPatterns}"
  | emptyPattern => "topic pattern must not be empty"
  | restNotLast => "'**' is only allowed as the last topic segment"
  | tooManySegments count =>
    s!"topic pattern has {count} segments, limit is {EventFilter.maxSegments}"

def FilterSetFault.message : FilterSetFault → String
  | tooManyFilters count => s!"{count} filters exceeds the limit of {EventFilter.maxFilters}"
  | inFilter index fault => s!"filter {index}: {fault.message}"

namespace TopicPattern

def concrete (pattern : TopicPattern) : List String :=
  if pattern.getLast? = some anyRest then pattern.dropLast else pattern

def fault? (pattern : TopicPattern) : Option FilterFault :=
  if pattern = [] then some .emptyPattern
  else if (concrete pattern).contains anyRest then some .restNotLast
  else if (concrete pattern).length > EventFilter.maxSegments then
    some (.tooManySegments (concrete pattern).length)
  else none

end TopicPattern

def EventFilter.fault? (f : EventFilter) : Option FilterFault :=
  if f.contractIds.length > maxContractIds then some (.tooManyContractIds f.contractIds.length)
  else if f.contractIds.contains "" then some .emptyContractId
  else if f.topics.length > maxPatterns then some (.tooManyPatterns f.topics.length)
  else f.topics.findSome? TopicPattern.fault?

/-- The first fault of a filter set. A set with too many filters is not looked into. -/
def filterSetFault? (filters : List EventFilter) : Option FilterSetFault :=
  if filters.length > EventFilter.maxFilters then some (.tooManyFilters filters.length)
  else
    filters.zipIdx.findSome? fun (f, index) => f.fault?.map (.inFilter index)

end LedgerFeed
