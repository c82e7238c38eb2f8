import Mathlib.Logic.Basic
import LedgerFeed.Filter.Limits

/-! What filters mean and which of them are accepted. In an accepted pattern `**` stands at the end
only, so that a pattern says of topics what it seems to say, and a set of accepted filters lets an
event pass exactly if one of them speaks of it. -/

namespace LedgerFeed

namespace TopicPattern

def Agrees (segments topics : List String) : Prop :=
  ∀ i (hs : i < segments.length) (ht : i < topics.length),
    segments[i] = anyTopic ∨ segments[i] = topics[i]

/-- What a pattern says of topics. Segments that end with `**` are about the first topics, and
others about all of them. -/
def Describes (pattern : TopicPattern) (topics : List String) : Prop :=
  (pattern.getLast? ≠ some anyRest ∧ topics.length = pattern.length ∧ Agrees pattern topics) ∨
    ∃ segments, pattern = segments ++ [anyRest] ∧ segments.length ≤ topics.length ∧
      Agrees segments topics

def Documented (pattern : TopicPattern) : Prop :=
  ∃ segments, anyRest ∉ segments ∧ 1 ≤ segments.length ∧ segments.length ≤ 4 ∧
    (pattern = segments ∨ pattern = segments ++ [anyRest])

/-- The patterns without a fault. A `**` alone is one of them. -/
def Accepted (pattern : TopicPattern) : Prop :=
  pattern.Documented ∨ pattern = [anyRest]

variable {segments : List String} {pattern : TopicPattern} {topics : List String}

theorem agrees_nil (topics : List String) : Agrees [] topics := by
  intro i hs
  cases hs

theorem agrees_cons {segment topic : String} :
    Agrees (segment :: segments) (topic :: topics) ↔
      (segment = anyTopic ∨ segment = topic) ∧ Agrees segments topics := by
  constructor
  · intro h
    have hhead := h 0 (Nat.zero_lt_succ _) (Nat.zero_lt_succ _)
    refine ⟨hhead, fun i hs ht => ?_⟩
    exact h (i + 1) (Nat.succ_lt_succ hs) (Nat.succ_lt_succ ht)
  · rintro ⟨hhead, htail⟩ i hs ht
    cases i with
    | zero => exact hhead
    | succ i => exact htail i (Nat.lt_of_succ_lt_succ hs) (Nat.lt_of_succ_lt_succ ht)

theorem fits_cons_nil {segment : String} (h : segment ≠ anyRest) (segments : TopicPattern) :
    fits (segment :: segments) [] = false := by
  simp [fits, h]

theorem fits_append_anyRest (h : anyRest ∉ segments) (rest topics : List String) :
    fits (segments ++ anyRest :: rest) topics = true ↔
      segments.length ≤ topics.length ∧ Agrees segments topics := by
  induction segments generalizing topics with
  | nil =>
    have hlength : ([] : List String).length ≤ topics.length := Nat.zero_le _
    exact iff_of_true (fits_anyRest rest topics) ⟨hlength, agrees_nil topics⟩
  | cons segment segments ih =>
    rw [List.mem_cons, not_or] at h
    obtain ⟨hsegment, hsegments⟩ := h
    rw [List.cons_append]
    cases topics with
    | nil => simp [fits_cons_nil (Ne.symm hsegment)]
    | cons topic topics =>
      have htail := ih hsegments topics
      rw [fits_cons (Ne.symm hsegment), Bool.and_eq_true, decide_eq_true_eq, htail, agrees_cons,
        List.length_cons, List.length_cons, Nat.succ_le_succ_iff]
      exact and_left_comm

theorem fits_of_not_mem (h : anyRest ∉ pattern) (topics : List String) :
    fits pattern topics = true ↔ topics.length = pattern.length ∧ Agrees pattern topics := by
  induction pattern generalizing topics with
  | nil => cases topics <;> simp [fits, agrees_nil]
  | cons segment segments ih =>
    rw [List.mem_cons, not_or] at h
    obtain ⟨hsegment, hsegments⟩ := h
    cases topics with
    | nil => simp [fits_cons_nil (Ne.symm hsegment)]
    | cons topic topics =>
      have htail := ih hsegments topics
      rw [fits_cons (Ne.symm hsegment), Bool.and_eq_true, decide_eq_true_eq, htail, agrees_cons,
        List.length_cons, List.length_cons, Nat.succ_inj]
      exact and_left_comm

theorem getLast?_ne_of_not_mem (h : anyRest ∉ pattern) : pattern.getLast? ≠ some anyRest :=
  fun hlast => h (List.mem_of_getLast? hlast)

theorem describes_append_anyRest (segments topics : List String) :
    Describes (segments ++ [anyRest]) topics ↔
      segments.length ≤ topics.length ∧ Agrees segments topics := by
  constructor
  · rintro (⟨hlast, -⟩ | ⟨segments', hsame, h⟩)
    · exact absurd List.getLast?_concat hlast
    · obtain rfl := List.append_cancel_right hsame
      exact h
  · intro h
    exact .inr ⟨segments, rfl, h⟩

theorem describes_of_not_mem (h : anyRest ∉ pattern) (topics : List String) :
    Describes pattern topics ↔ topics.length = pattern.length ∧ Agrees pattern topics := by
  constructor
  · rintro (⟨-, hall⟩ | ⟨segments, rfl, -⟩)
    · exact hall
    · exact absurd (List.mem_append_right segments (List.mem_singleton_self anyRest)) h
  · intro hall
    exact .inl ⟨getLast?_ne_of_not_mem h, hall⟩

theorem Accepted.exists_segments (h : pattern.Accepted) :
    ∃ segments, anyRest ∉ segments ∧ (pattern = segments ∨ pattern = segments ++ [anyRest]) := by
  rcases h with ⟨segments, hrest, -, -, hpattern⟩ | hlone
  · exact ⟨segments, hrest, hpattern⟩
  · exact ⟨[], List.not_mem_nil, .inr hlone⟩

theorem Accepted.fits_iff (h : pattern.Accepted) (topics : List String) :
    pattern.fits topics = true ↔ pattern.Describes topics := by
  obtain ⟨segments, hrest, rfl | rfl⟩ := h.exists_segments
  · rw [fits_of_not_mem hrest, describes_of_not_mem hrest]
  · rw [fits_append_anyRest hrest, describes_append_anyRest]

/-! Faults of patterns. -/

theorem concrete_append_anyRest (segments : List String) :
    concrete (segments ++ [anyRest]) = segments := by
  rw [concrete, if_pos List.getLast?_concat, List.dropLast_concat]

theorem concrete_of_not_mem (h : anyRest ∉ pattern) : concrete pattern = pattern :=
  if_neg (getLast?_ne_of_not_mem h)

theorem eq_concrete_or (pattern : TopicPattern) :
    pattern = concrete pattern ∨ pattern = concrete pattern ++ [anyRest] := by
  by_cases hlast : pattern.getLast? = some anyRest
  · obtain ⟨segments, rfl⟩ := List.getLast?_eq_some_iff.mp hlast
    exact .inr (by rw [concrete_append_anyRest])
  · exact .inl (if_neg hlast).symm

theorem fault?_eq_none_iff_concrete : pattern.fault? = none ↔
    pattern ≠ [] ∧ anyRest ∉ concrete pattern ∧ (concrete pattern).length ≤ 4 := by
  have hcontains : (concrete pattern).contains anyRest = true ↔ anyRest ∈ concrete pattern :=
    List.contains_iff_mem
  simp only [fault?, EventFilter.maxSegments, ite_eq_iff, hcontains, reduceCtorEq, and_false,
    false_or, and_true, Nat.not_lt, gt_iff_lt, ne_eq]

theorem fault?_eq_none_iff : pattern.fault? = none ↔ pattern.Accepted := by
  rw [fault?_eq_none_iff_concrete]
  constructor
  · rintro ⟨hne, hrest, hlength⟩
    have hpattern := eq_concrete_or pattern
    by_cases hnil : concrete pattern = []
    · rw [hnil] at hpattern
      exact .inr (hpattern.resolve_left hne)
    · have hpos : 1 ≤ (concrete pattern).length := List.length_pos_iff.mpr hnil
      exact .inl ⟨concrete pattern, hrest, hpos, hlength, hpattern⟩
  · rintro (⟨segments, hrest, hpos, hlength, rfl | rfl⟩ | rfl)
    · rw [concrete_of_not_mem hrest]
      exact ⟨List.length_pos_iff.mp hpos, hrest, hlength⟩
    · rw [concrete_append_anyRest]
      exact ⟨List.concat_ne_nil anyRest segments, hrest, hlength⟩
    · decide

theorem mem_dropLast_of_mem_concrete (h : anyRest ∈ concrete pattern) :
    anyRest ∈ pattern.dropLast := by
  by_cases hlast : pattern.getLast? = some anyRest
  · rwa [concrete, if_pos hlast] at h
  · rw [concrete, if_neg hlast] at h
    have hne : pattern ≠ [] := List.ne_nil_of_mem h
    rw [← List.dropLast_concat_getLast hne, List.mem_append, List.mem_singleton] at h
    refine h.resolve_right fun hsame => hlast ?_
    rw [List.getLast?_eq_some_getLast hne, hsame]

end TopicPattern

def FilterFault.AppliesTo (pattern : TopicPattern) : FilterFault → Prop
  | emptyPattern => pattern = []
  | restNotLast => TopicPattern.anyRest ∈ pattern.dropLast
  | tooManySegments count => pattern.concrete.length = count ∧ 4 < count
  | tooManyContractIds _ | emptyContractId | tooManyPatterns _ => False

def FilterFault.Applies (f : EventFilter) : FilterFault → Prop
  | tooManyContractIds count => f.contractIds.length = count ∧ 5 < count
  | emptyContractId => "" ∈ f.contractIds
  | tooManyPatterns count => f.topics.length = count ∧ 5 < count
  | fault => ∃ pattern ∈ f.topics, fault.AppliesTo pattern

theorem TopicPattern.appliesTo_of_fault? {pattern : TopicPattern} {fault : FilterFault}
    (h : pattern.fault? = some fault) : fault.AppliesTo pattern := by
  unfold TopicPattern.fault? at h
  split at h
  · rename_i hnil
    cases h
    exact hnil
  split at h
  · rename_i hrest
    cases h
    exact mem_dropLast_of_mem_concrete (List.contains_iff_mem.mp hrest)
  split at h
  · rename_i hlength
    cases h
    exact ⟨rfl, hlength⟩
  · cases h

namespace EventFilter

def Selects (f : EventFilter) (e : ContractEvent) : Prop :=
  (f.eventType = none ∨ f.eventType = some e.eventType) ∧
  (f.contractIds = [] ∨ ∃ id ∈ f.contractIds, e.contractId = some id) ∧
  (f.topics = [] ∨ ∃ pattern ∈ f.topics, pattern.Describes e.topics)

def KeepsTo (allowed : TopicPattern → Prop) (f : EventFilter) : Prop :=
  f.contractIds.length ≤ 5 ∧ "" ∉ f.contractIds ∧ f.topics.length ≤ 5 ∧
    ∀ pattern ∈ f.topics, allowed pattern

variable {f : EventFilter} {e : ContractEvent}

theorem matchesType_iff :
    f.matchesType e = true ↔ f.eventType = none ∨ f.eventType = some e.eventType := by
  unfold matchesType
  cases f.eventType with
  | none => simp
  | some t => simp

theorem matchesContract_iff : f.matchesContract e = true ↔
    f.contractIds = [] ∨ ∃ id ∈ f.contractIds, e.contractId = some id := by
  unfold matchesContract
  rw [Bool.or_eq_true, List.isEmpty_iff]
  cases e.contractId with
  | none => simp
  | some id => simp

theorem matchesTopics_iff (h : ∀ pattern ∈ f.topics, pattern.Accepted) :
    f.matchesTopics e = true ↔
      f.topics = [] ∨ ∃ pattern ∈ f.topics, pattern.Describes e.topics := by
  have hpattern : ∀ pattern ∈ f.topics,
      (pattern.fits e.topics = true ↔ pattern.Describes e.topics) :=
    fun pattern hmem => (h pattern hmem).fits_iff e.topics
  rw [matchesTopics, Bool.or_eq_true, List.isEmpty_iff, List.any_eq_true]
  exact or_congr_right (exists_congr fun pattern => and_congr_right (hpattern pattern))

theorem accepts_iff (h : ∀ pattern ∈ f.topics, pattern.Accepted) :
    f.accepts e = true ↔ f.Selects e := by
  rw [accepts, Bool.and_eq_true, Bool.and_eq_true, matchesType_iff, matchesContract_iff,
    matchesTopics_iff h, and_assoc]
  rfl

theorem fault?_eq_none_iff : f.fault? = none ↔ f.KeepsTo TopicPattern.Accepted := by
  have hcontains : f.contractIds.contains "" = true ↔ "" ∈ f.contractIds := List.contains_iff_mem
  have hpatterns : f.topics.findSome? TopicPattern.fault? = none ↔
      ∀ pattern ∈ f.topics, pattern.Accepted := by
    simp only [List.findSome?_eq_none_iff, TopicPattern.fault?_eq_none_iff]
  simp only [fault?, maxContractIds, maxPatterns, ite_eq_iff, hcontains, hpatterns, reduceCtorEq,
    and_false, false_or, Nat.not_lt, gt_iff_lt, KeepsTo]

theorem applies_of_fault? {fault : FilterFault} (h : f.fault? = some fault) : fault.Applies f := by
  unfold EventFilter.fault? at h
  split at h
  · rename_i hids
    cases h
    exact ⟨rfl, hids⟩
  split at h
  · rename_i hempty
    cases h
    exact List.contains_iff_mem.mp hempty
  split at h
  · rename_i hpatterns
    cases h
    exact ⟨rfl, hpatterns⟩
  · obtain ⟨pattern, hmem, hfault⟩ := List.exists_of_findSome?_eq_some h
    have happlies := TopicPattern.appliesTo_of_fault? hfault
    cases fault with
    | emptyPattern | restNotLast | tooManySegments => exact ⟨pattern, hmem, happlies⟩
    | tooManyContractIds | emptyContractId | tooManyPatterns => cases happlies

end EventFilter

/-! Filter sets. -/

variable {filters : List EventFilter}

theorem first_fault {n : Nat} {fault : FilterSetFault}
    (h : ((filters.zipIdx n).findSome? fun (f, index) =>
      f.fault?.map (FilterSetFault.inFilter index)) = some fault) :
    ∃ i f why, fault = .inFilter (n + i) why ∧ filters[i]? = some f ∧ f.fault? = some why ∧
      ∀ j < i, ∀ g, filters[j]? = some g → g.fault? = none := by
  induction filters generalizing n with
  | nil => cases h
  | cons f filters ih =>
    rw [List.zipIdx_cons, List.findSome?_cons] at h
    cases hwhy : f.fault? with
    | some why =>
      simp only [hwhy, Option.map_some] at h
      obtain rfl := Option.some.inj h
      exact ⟨0, f, why, rfl, rfl, hwhy, fun j hj => absurd hj j.not_lt_zero⟩
    | none =>
      simp only [hwhy, Option.map_none] at h
      obtain ⟨i, g, why, hfault, hg, hgwhy, hbefore⟩ := ih h
      refine ⟨i + 1, g, why, ?_, hg, hgwhy, fun j hj g' hg' => ?_⟩
      · rw [hfault, Nat.add_assoc, Nat.add_comm 1]
      · cases j with
        | zero =>
          obtain rfl := Option.some.inj hg'
          exact hwhy
        | succ j => exact hbefore j (Nat.lt_of_succ_lt_succ hj) g' hg'

theorem filterSetFault?_of_length (h : filters.length ≤ 5) :
    filterSetFault? filters = filters.zipIdx.findSome? fun (f, index) =>
      f.fault?.map (FilterSetFault.inFilter index) :=
  if_neg (Nat.not_lt.mpr h)

theorem filterSetFault?_eq_none_iff : filterSetFault? filters = none ↔
    filters.length ≤ 5 ∧ ∀ f ∈ filters, f.KeepsTo TopicPattern.Accepted := by
  by_cases hlength : filters.length ≤ 5
  · rw [filterSetFault?_of_length hlength, and_iff_right hlength]
    simp only [List.findSome?_eq_none_iff, Option.map_eq_none_iff, EventFilter.fault?_eq_none_iff]
    constructor
    · intro h f hf
      obtain ⟨i, hi, rfl⟩ := List.mem_iff_getElem.mp hf
      exact h (filters[i], i) (List.mk_mem_zipIdx_iff_getElem?.mpr (List.getElem?_eq_getElem hi))
    · rintro h ⟨f, i⟩ hf
      exact h f (List.mem_of_getElem? (List.mk_mem_zipIdx_iff_getElem?.mp hf))
  · have hmany : filterSetFault? filters = some (.tooManyFilters filters.length) :=
      if_pos (Nat.lt_of_not_le hlength)
    simp [hmany, hlength]

def Documented (filters : List EventFilter) : Prop :=
  filters.length ≤ 5 ∧ ∀ f ∈ filters, f.KeepsTo TopicPattern.Documented

/-- The filter sets without a fault are the documented ones, but that `**` alone is let through as a
pattern. The fault of a set that is not too long names the first filter that breaks a limit, and
what is wrong with it. -/
theorem filter_sets_within_limits (filters : List EventFilter) :
    (filterSetFault? filters = none ↔
      filters.length ≤ 5 ∧
        ∀ f ∈ filters, f.KeepsTo fun pattern =>
          pattern.Documented ∨ pattern = [TopicPattern.anyRest]) ∧
    (5 < filters.length → filterSetFault? filters = some (.tooManyFilters filters.length)) ∧
    (filters.length ≤ 5 → ∀ fault, filterSetFault? filters = some fault →
      ∃ i f why, fault = .inFilter i why ∧ fault.message = s!"filter {i}: {why.message}" ∧
        filters[i]? = some f ∧ ¬f.KeepsTo TopicPattern.Accepted ∧ why.Applies f ∧
        ∀ j < i, ∀ g, filters[j]? = some g → g.KeepsTo TopicPattern.Accepted) := by
  refine ⟨filterSetFault?_eq_none_iff, fun hmany => if_pos hmany, fun hlength fault h => ?_⟩
  rw [filterSetFault?_of_length hlength] at h
  obtain ⟨i, f, why, hfault, hf, hwhy, hbefore⟩ := first_fault h
  rw [Nat.zero_add] at hfault
  have hbroken : ¬f.KeepsTo TopicPattern.Accepted := by
    rw [← EventFilter.fault?_eq_none_iff, hwhy]
    exact nofun
  have hkept : ∀ j < i, ∀ g, filters[j]? = some g → g.KeepsTo TopicPattern.Accepted :=
    fun j hj g hg => EventFilter.fault?_eq_none_iff.mp (hbefore j hj g hg)
  exact ⟨i, f, why, hfault, hfault ▸ rfl, hf, hbroken, EventFilter.applies_of_fault? hwhy, hkept⟩

theorem second_filter_blamed :
    filterSetFault? [.any, EventFilter.any.withTopic []] = some (.inFilter 1 .emptyPattern) ∧
      EventFilter.any.KeepsTo TopicPattern.Accepted ∧
      ¬(EventFilter.any.withTopic []).KeepsTo TopicPattern.Accepted := by
  have hfault : filterSetFault? [.any, EventFilter.any.withTopic []] =
      some (.inFilter 1 .emptyPattern) := by decide
  obtain ⟨i, f, why, hsame, -, hf, hbroken, -, hbefore⟩ :=
    (filter_sets_within_limits _).2.2 (by decide) _ hfault
  obtain ⟨rfl, rfl⟩ := FilterSetFault.inFilter.inj hsame
  obtain rfl := Option.some.inj hf
  exact ⟨hfault, hbefore 0 Nat.zero_lt_one _ rfl, hbroken⟩

/-- A filter set that is not documented and has no fault. -/
theorem lone_rest_accepted :
    filterSetFault? [EventFilter.any.withTopic [TopicPattern.anyRest]] = none ∧
      ¬Documented [EventFilter.any.withTopic [TopicPattern.anyRest]] := by
  refine ⟨by decide, fun ⟨_, hall⟩ => ?_⟩
  obtain ⟨-, -, -, hpatterns⟩ := hall _ (List.mem_singleton_self _)
  obtain ⟨segments, hrest, hpos, -, hpattern⟩ := hpatterns _ (List.mem_singleton_self _)
  rcases hpattern with rfl | hpattern
  · exact hrest (List.mem_singleton_self _)
  · obtain rfl : [] = segments := List.append_cancel_right hpattern
    exact absurd hpos (by decide)

/-- An accepted filter set lets exactly those events pass of which one of its filters speaks. -/
theorem wanted_iff_selected {filters : List EventFilter}
    (h : filterSetFault? filters = none) (e : ContractEvent) :
    wanted filters e = true ↔ filters = [] ∨ ∃ f ∈ filters, f.Selects e := by
  obtain ⟨-, hkept⟩ := filterSetFault?_eq_none_iff.mp h
  have haccepts : ∀ f ∈ filters, (f.accepts e = true ↔ f.Selects e) := by
    intro f hf
    obtain ⟨-, -, -, hpatterns⟩ := hkept f hf
    exact EventFilter.accepts_iff hpatterns
  rw [wanted_eq_true_iff]
  exact or_congr_right (exists_congr fun f => and_congr_right (haccepts f))

def tokenFilter : EventFilter :=
  ⟨some .contract, ["CTOKEN"], [["transfer", "*", "**"], ["mint"]]⟩

def tokenEvent (topics : List String) : ContractEvent where
  id := "1"
  eventType := .contract
  ledger := 1
  ledgerClosedAt := ""
  contractId := some "CTOKEN"
  topics
  value := ""
  inSuccessfulContractCall := true
  txHash := ""

theorem tokenFilter_selects :
    filterSetFault? [tokenFilter] = none ∧
      (∃ f ∈ [tokenFilter], f.Selects (tokenEvent ["transfer", "a", "b", "c"])) ∧
      ¬∃ f ∈ [tokenFilter], f.Selects (tokenEvent ["mint", "a"]) := by
  have hvalid : filterSetFault? [tokenFilter] = none := by decide
  have hwanted : wanted [tokenFilter] (tokenEvent ["transfer", "a", "b", "c"]) = true := by decide
  have hunwanted : ¬wanted [tokenFilter] (tokenEvent ["mint", "a"]) = true := by decide
  rw [wanted_iff_selected hvalid] at hwanted hunwanted
  exact ⟨hvalid, hwanted.resolve_left nofun, fun h => hunwanted (.inr h)⟩

end LedgerFeed
