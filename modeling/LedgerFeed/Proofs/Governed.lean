import LedgerFeed.Proofs.Checking
import LedgerFeed.Proofs.Scene

/-! What becomes of an engine over its life, with runs among the operations. Its filters are those
that were accepted last and never break the limits of nodes; the archive that is bound first stays;
and what is refused leaves no trace. -/

namespace LedgerFeed

namespace Operation

def accepted? : Operation → Option (List EventFilter)
  | setFilters filters | reload filters =>
    if filterSetFault? filters = none then some filters else none
  | clearFilters => some []
  | stop | bindArchive _ | setArchive _ | start _ => none

def bound? (urls : Net.UrlReader) : Operation → Option String
  | bindArchive endpoint => some endpoint
  | setArchive endpoint => if endpointFault? urls endpoint = none then some endpoint else none
  | stop | setFilters _ | clearFilters | reload _ | start _ => none

theorem accepted?_sound {op : Operation} {filters : List EventFilter}
    (h : op.accepted? = some filters) : filterSetFault? filters = none := by
  cases op with
  | setFilters | reload =>
    simp only [accepted?, Option.ite_none_right_eq_some, Option.some.injEq] at h
    obtain ⟨hvalid, rfl⟩ := h
    exact hvalid
  | clearFilters =>
    obtain rfl := Option.some.inj h
    rfl
  | stop | bindArchive | setArchive | start => cases h

end Operation

namespace Engine

def rejection? {α : Type} : Except IngestError α → Option IngestError
  | .ok _ => none
  | .error error => some error

/-- Why an engine refuses an operation. A reload of the active filters is not looked into. -/
def refusal? (e : Engine) : Operation → Option IngestError
  | .stop | .clearFilters => none
  | .setFilters filters => rejection? (e.setFilters filters)
  | .reload filters => if filters = e.filters then none else rejection? (e.setFilters filters)
  | .bindArchive endpoint => rejection? (e.bindArchive endpoint)
  | .setArchive endpoint => rejection? (e.setArchive endpoint)
  | .start request => rejection? (e.start request).2

def Keeps (e e' : Engine) : Prop :=
  ∃ control, e' = { e with control }

/-- Operations take an engine to another, with steps of runs among them. -/
inductive Goes (e : Engine) : List Operation → Engine → Prop
  | here : Goes e [] e
  | operate {e' : Engine} {ops : List Operation} (h : Goes e ops e') (op : Operation) :
      Goes e (ops ++ [op]) (e'.operate op)
  | reply {e' : Engine} {ops : List Operation} (h : Goes e ops e') (run : Run)
      (answer : (run.pending.question run.assignment).Reply) : Goes e ops (e'.reply run answer).1

variable {e e' : Engine} {ops : List Operation}

theorem keeps_settle (e : Engine) (assignment : Assignment) (p : Progress) :
    e.Keeps (e.settle assignment p).1 := by
  cases p with
  | ended => exact ⟨_, rfl⟩
  | waiting => exact ⟨e.control, rfl⟩

theorem keeps_reply (e : Engine) (run : Run)
    (answer : (run.pending.question run.assignment).Reply) : e.Keeps (e.reply run answer).1 :=
  keeps_settle ..

theorem keeps_start (e : Engine) (request : RunRequest) : e.Keeps (e.start request).1 := by
  rcases e.start_cases request with ⟨-, h⟩ | ⟨-, ⟨error, -, h⟩ | ⟨-, h⟩⟩
  · exact h ▸ ⟨e.control, rfl⟩
  · exact h ▸ ⟨_, rfl⟩
  · obtain ⟨control, hsettle⟩ := keeps_settle { e with control := ⟨.running, false⟩ }
      (e.assign request) (e.assign request).begin
    exact h ▸ ⟨control, hsettle⟩

theorem setFilters_getD (e : Engine) (filters : List EventFilter) :
    (e.setFilters filters).toOption.getD e =
      if filterSetFault? filters = none then { e with filters } else e := by
  unfold setFilters
  cases filterSetFault? filters <;> rfl

theorem reload_eq (e : Engine) (filters : List EventFilter) :
    e.reload filters = (e.setFilters filters).toOption.getD e := by
  unfold reload
  split
  · rename_i hsame
    subst hsame
    rw [setFilters_getD]
    split <;> rfl
  · cases e.setFilters filters <;> rfl

theorem bindArchive_of_bound {bound : String} (h : e.archive = some bound) (endpoint : String) :
    e.bindArchive endpoint = .error (.archiveAlreadyBound bound) := by
  rw [bindArchive, h]

theorem setArchive_of_bound {bound : String} (h : e.archive = some bound) (endpoint : String) :
    e.setArchive endpoint = .error (.archiveAlreadyBound bound) := by
  rw [setArchive_eq, h]

theorem bindArchive_getD (e : Engine) (endpoint : String) :
    (e.bindArchive endpoint).toOption.getD e =
      { e with archive := e.archive.or (some endpoint) } := by
  cases h : e.archive with
  | some bound =>
    rw [bindArchive_of_bound h]
    exact congrArg (fun archive => { e with archive }) h
  | none =>
    rw [bindArchive, h]
    rfl

theorem setArchive_getD (e : Engine) (endpoint : String) :
    (e.setArchive endpoint).toOption.getD e =
      { e with
        archive :=
          e.archive.or
            (if endpointFault? e.urls endpoint = none then some endpoint else none) } := by
  cases h : e.archive with
  | some bound =>
    rw [setArchive_of_bound h]
    exact congrArg (fun archive => { e with archive }) h
  | none =>
    rw [setArchive_eq, h]
    cases endpointFault? e.urls endpoint with
    | some fault => exact congrArg (fun archive => { e with archive }) h
    | none =>
      rw [bindArchive_getD, h]
      rfl

theorem operate_eq (e : Engine) (op : Operation) :
    ∃ control, e.operate op =
      { e with
        filters := op.accepted?.getD e.filters
        archive := e.archive.or (op.bound? e.urls)
        control } := by
  have harchive : e.archive.or none = e.archive := Option.or_none
  have hset (filters : List EventFilter) : (e.setFilters filters).toOption.getD e =
      { e with
        filters := (Operation.setFilters filters).accepted?.getD e.filters
        archive := e.archive.or none } := by
    rw [setFilters_getD, harchive, Operation.accepted?]
    split <;> rfl
  cases op with
  | stop => exact ⟨e.control.requestStop, by rw [Operation.bound?, harchive]; rfl⟩
  | clearFilters => exact ⟨e.control, by rw [Operation.bound?, harchive]; rfl⟩
  | setFilters filters => exact ⟨e.control, hset filters⟩
  | reload filters => exact ⟨e.control, (e.reload_eq filters).trans (hset filters)⟩
  | bindArchive endpoint => exact ⟨e.control, e.bindArchive_getD endpoint⟩
  | setArchive endpoint => exact ⟨e.control, e.setArchive_getD endpoint⟩
  | start request =>
    obtain ⟨control, hstart⟩ := e.keeps_start request
    exact ⟨control, hstart.trans (by rw [Operation.bound?, harchive]; rfl)⟩

theorem keeps_of_refusal? {op : Operation} {error : IngestError} (h : e.refusal? op = some error) :
    e.Keeps (e.operate op) := by
  have hrejected {result : Except IngestError Engine} (h : rejection? result = some error) :
      result.toOption.getD e = { e with control := e.control } := by
    cases result with
    | ok => cases h
    | error => rfl
  cases op with
  | stop | clearFilters => cases h
  | setFilters | bindArchive | setArchive => exact ⟨e.control, hrejected h⟩
  | reload filters =>
    refine ⟨e.control, (e.reload_eq filters).trans (hrejected ?_)⟩
    exact (Option.ite_none_left_eq_some.mp h).2
  | start request => exact e.keeps_start request

namespace Goes

theorem filters_eq (h : e.Goes ops e') :
    e'.filters = (ops.filterMap Operation.accepted?).getLastD e.filters := by
  induction h with
  | here => rfl
  | @operate e' ops _ op ih =>
    obtain ⟨control, heq⟩ := e'.operate_eq op
    rw [heq, List.filterMap_append]
    cases haccepted : op.accepted? with
    | none => simpa [haccepted] using ih
    | some filters => simp [haccepted]
  | @reply e' ops _ run answer ih =>
    obtain ⟨control, heq⟩ := e'.keeps_reply run answer
    exact heq ▸ ih

theorem setup_eq (h : e.Goes ops e') : e'.config = e.config ∧ e'.urls = e.urls := by
  induction h with
  | here => exact ⟨rfl, rfl⟩
  | @operate e' ops _ op ih =>
    obtain ⟨control, heq⟩ := e'.operate_eq op
    exact heq ▸ ih
  | @reply e' ops _ run answer ih =>
    obtain ⟨control, heq⟩ := e'.keeps_reply run answer
    exact heq ▸ ih

theorem archive_eq (h : e.Goes ops e') :
    e'.archive = e.archive.or (ops.findSome? (Operation.bound? e.urls)) := by
  induction h with
  | here => exact Option.or_none.symm
  | @operate e' ops hgoes op ih =>
    obtain ⟨control, heq⟩ := e'.operate_eq op
    rw [heq, hgoes.setup_eq.2, List.findSome?_append, ← Option.or_assoc, ← ih,
      List.findSome?_singleton]
  | @reply e' ops _ run answer ih =>
    obtain ⟨control, heq⟩ := e'.keeps_reply run answer
    exact heq ▸ ih

theorem filters_sound (h : e.Goes ops e') (hvalid : filterSetFault? e.filters = none) :
    filterSetFault? e'.filters = none := by
  rw [h.filters_eq, List.getLastD_eq_getLast?]
  cases hlast : (ops.filterMap Operation.accepted?).getLast? with
  | none => exact hvalid
  | some filters =>
    obtain ⟨op, -, haccepted⟩ := List.mem_filterMap.mp (List.mem_of_getLast? hlast)
    exact Operation.accepted?_sound haccepted

end Goes

theorem filterSetFault?_of_faults {urls : Net.UrlReader} {config : EngineConfig}
    (h : config.faults urls = []) :
    filterSetFault? config.filters = none :=
  EngineConfig.faults_eq_nil_iff.mp h .filters

theorem ofConfig_eq_ok {urls : Net.UrlReader} {config : EngineConfig} {live : Option String}
    {decoder : Decoder} (h : ofConfig urls config live decoder = .ok e) :
    config.faults urls = [] ∧ e.config = config ∧ e.urls = urls ∧ e.filters = config.filters ∧
      e.archive = config.archiveUrl := by
  by_cases hfaults : config.faults urls = []
  · rw [ofConfig_of_faults_eq_nil hfaults] at h
    obtain rfl := Except.ok.inj h
    exact ⟨hfaults, rfl, rfl, rfl, rfl⟩
  · rw [ofConfig_of_faults_ne_nil hfaults] at h
    cases h

end Engine

/-- Whatever is done with an engine, and however its runs go on meanwhile: its filters keep to the
limits of nodes and are those that were accepted last; its archive is the first that was bound, and
once there is one, it stays and every attempt to bind another is refused; its configuration stays;
and neither what is refused nor a step of a run changes any of them. -/
theorem engine_stays_valid {urls : Net.UrlReader} {config : EngineConfig} {live : Option String}
    {decoder : Decoder} {e₀ e : Engine} {ops : List Operation}
    (hbuilt : Engine.ofConfig urls config live decoder = .ok e₀) (h : e₀.Goes ops e) :
    filterSetFault? e.filters = none ∧
    e.filters = (ops.filterMap Operation.accepted?).getLastD config.filters ∧
    e.archive = config.archiveUrl.or (ops.findSome? (Operation.bound? urls)) ∧
    e.config = config ∧
    (∀ bound, e.archive = some bound →
      (∀ endpoint, e.bindArchive endpoint = .error (.archiveAlreadyBound bound) ∧
        e.setArchive endpoint = .error (.archiveAlreadyBound bound)) ∧
      ∀ later e', e.Goes later e' → e'.archive = some bound) ∧
    (∀ op error, e.refusal? op = some error → e.Keeps (e.operate op)) ∧
    ∀ run answer, e.Keeps (e.reply run answer).1 := by
  obtain ⟨hfaults, hconfig, rfl, hfilters, harchive⟩ := Engine.ofConfig_eq_ok hbuilt
  refine ⟨?_, ?_, ?_, h.setup_eq.1.trans hconfig, fun bound hbound => ⟨fun endpoint => ?_, ?_⟩,
    fun op error => Engine.keeps_of_refusal?, e.keeps_reply⟩
  · exact h.filters_sound (hfilters ▸ Engine.filterSetFault?_of_faults hfaults)
  · exact hfilters ▸ h.filters_eq
  · exact harchive ▸ h.archive_eq
  · exact ⟨Engine.bindArchive_of_bound hbound endpoint, Engine.setArchive_of_bound hbound endpoint⟩
  · intro later e' hlater
    rw [hlater.archive_eq, hbound]
    rfl

def homeUrls : Net.UrlReader :=
  .ofList [("http://[::1]:8000", "http")]

def homeEngine : Engine where
  config := .ofLiveUrl "http://[::1]:8000"
  urls := homeUrls
  decoder := .standard
  live := "http://[::1]:8000"
  archive := none
  filters := []
  control := .initial

def homeOperations : List Operation :=
  [.start (.live none none), .setFilters [.any], .bindArchive "archive",
    .reload (.replicate 6 .any), .setArchive "no endpoint"]

def homeRun : Run :=
  ⟨homeEngine.assign (.live none none), .ofCapacity 25 .live, .liveHealth (.choosing none)⟩

theorem homeEngine_stays_valid : ∃ e,
    Engine.ofConfig homeUrls (.ofLiveUrl "http://[::1]:8000") none .standard = .ok homeEngine ∧
      homeEngine.Goes homeOperations e ∧ e.filters = [.any] ∧
      e.bindArchive "other" = .error (.archiveAlreadyBound "archive") := by
  have hfaults : (EngineConfig.ofLiveUrl "http://[::1]:8000").faults homeUrls = [] := by
    decide +kernel
  have hbuilt : Engine.ofConfig homeUrls (.ofLiveUrl "http://[::1]:8000") none .standard =
      .ok homeEngine :=
    Engine.ofConfig_of_faults_eq_nil hfaults none .standard
  have hstarted : homeEngine.Goes [.start (.live none none), .setFilters [.any]] _ :=
    (Engine.Goes.here.operate (.start (.live none none))).operate (.setFilters [.any])
  have hgoes : homeEngine.Goes homeOperations _ :=
    (((hstarted.operate (.bindArchive "archive")).reply homeRun (.error (.http 503))).operate
      (.reload (.replicate 6 .any))).operate (.setArchive "no endpoint")
  obtain ⟨-, hfilters, harchive, -, hbound, -⟩ := engine_stays_valid hbuilt hgoes
  exact ⟨_, hbuilt, hgoes, hfilters, ((hbound "archive" harchive).1 "other").1⟩

end LedgerFeed
