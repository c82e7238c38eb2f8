import LedgerFeed.Proofs.Due
import LedgerFeed.Proofs.Filling
import LedgerFeed.Proofs.Live
import LedgerFeed.Proofs.Moves
import LedgerFeed.Proofs.Scene

/-! The page size makes no difference to what a run comes to. In one setting the runs of all page
sizes come by the same stations, having dealt with the same; between two stations they page each in
its own way. -/

namespace LedgerFeed

def Assignment.paged (a : Assignment) (size : UInt32) : Assignment :=
  { a with config := { a.config with pageSize := size } }

/-- Where the runs of all page sizes come by. -/
inductive Station where
  | choosing (start : Option LedgerNumber)
  | opening (start stop : LedgerNumber)
  | looking (ledger : LedgerNumber)
  | polling (ledger latest : LedgerNumber)
  | ended (result : Except IngestError Exit)

namespace Station

def progress (s : Setting) (a : Assignment) (sink : Sink) : Station → Progress
  | choosing start => .waiting sink (.liveHealth (.choosing start))
  | opening start stop => .waiting sink (.archiveHealth start stop)
  | looking ledger => .waiting sink (.liveHealth (.following ledger))
  | polling ledger latest =>
    .waiting sink (.events ⟨ledger, latest, .ofLedger ledger s.filters a.config.pageSize⟩)
  | ended result => .ended sink result

theorem eq_ended_of_progress {s : Setting} {a : Assignment} {sink sink' : Sink}
    {result : Except IngestError Exit} (station : Station)
    (h : station.progress s a sink = .ended sink' result) :
    station = .ended result ∧ sink = sink' := by
  cases station with
  | ended result' =>
    obtain ⟨rfl, rfl⟩ := Progress.ended.inj h
    exact ⟨rfl, rfl⟩
  | choosing | opening | looking | polling => cases h

end Station

theorem World.Leads.of_begin {a : Assignment} {w : World a} {moments : List (Moment a)}
    {p : Progress} (h : w.Leads [] a.begin moments p) : w.Makes moments ∧ a.Reaches moments p := by
  have hmakes := h.makes trivial
  have hreaches := h.reaches .begin
  rw [List.append_nil] at hmakes hreaches
  exact ⟨hmakes, hreaches⟩

theorem Engine.result_finish {kind : RunKind} {sink sink' : Sink}
    (h : sink.delivered = sink'.delivered) (result : Except IngestError Exit) :
    (Engine.finish kind sink result).result = (Engine.finish kind sink' result).result := by
  cases result with
  | ok exit => simp only [Engine.finish, h]
  | error => rfl

variable {s : Setting} {a : Assignment} {t t' : Tally} {station : Station}
  {result : Except Breakdown Tally} {go go' : UInt32 → Sink → Progress}

namespace Setting

/-- Runs of all page sizes that have dealt with the same come to one station, having dealt with the
same again. -/
def Meets (s : Setting) (a : Assignment) (t : Tally) (go : UInt32 → Sink → Progress) : Prop :=
  ∃ (t' : Tally) (station : Station), ∀ size, 0 < size →
    ∀ (before : List (Moment (a.paged size))) (sink : Sink),
      t.Fits before sink → ∃ moments sink',
        (s.world (a.paged size)).Leads before (go size sink) moments
          (station.progress s (a.paged size) sink') ∧ t'.Fits (moments ++ before) sink'

theorem Meets.here (station : Station) (h : ∀ size sink, ∃ sink' : Sink,
    go size sink = station.progress s (a.paged size) sink' ∧ sink'.recent = sink.recent ∧
      sink'.delivered = sink.delivered) : s.Meets a t go := by
  refine ⟨t, station, fun size _ before sink hfits => ?_⟩
  obtain ⟨sink', heq, hrecent, hdelivered⟩ := h size sink
  exact ⟨[], sink', heq ▸ .refl .., hfits.withSink hrecent hdelivered⟩

theorem Meets.withFeed (h : s.Meets a t go) (feed : Feed) :
    s.Meets a t fun size sink => go size (sink.withFeed feed) := by
  obtain ⟨t', station, hmeets⟩ := h
  exact ⟨t', station, fun size hsize before sink hfits =>
    hmeets size hsize before _ (hfits.withSink rfl rfl)⟩

theorem Meets.of_brings (h : ∀ size, 0 < size → ∀ (before : List (Moment (a.paged size)))
      (sink : Sink), t.Fits before sink → s.Brings before (go size sink) result (go' size))
    (hmeets : ∀ t', result = .ok t' → s.Meets a t' go') : s.Meets a t go := by
  cases result with
  | error b =>
    refine ⟨b.tally, .ended (.error b.error), fun size hsize before sink hfits => ?_⟩
    exact h size hsize before sink hfits
  | ok t' =>
    obtain ⟨t'', station, hmeets⟩ := hmeets t' rfl
    refine ⟨t'', station, fun size hsize before sink hfits => ?_⟩
    obtain ⟨moments, sink', hl, hfits'⟩ := h size hsize before sink hfits
    obtain ⟨later, sink'', hl', hfits''⟩ := hmeets size hsize _ sink' hfits'
    exact ⟨later ++ moments, sink'', hl.trans hl', by rwa [List.append_assoc]⟩

theorem Meets.ite {c : Prop} [Decidable c] (h : s.Meets a t go) (h' : s.Meets a t go') :
    s.Meets a t fun size sink => if c then go size sink else go' size sink := by
  by_cases hc : c
  · simpa only [if_pos hc] using h
  · simpa only [if_neg hc] using h'

theorem meets_failed (error : IngestError) :
    s.Meets a t fun _ sink => Assignment.failed sink error :=
  .here (.ended (.error error)) fun _ sink => ⟨sink, rfl, rfl, rfl⟩

theorem meets_completed (resume : LedgerNumber) :
    s.Meets a t fun _ sink => Assignment.completed sink resume :=
  .here (.ended (.ok ⟨.completed, resume⟩)) fun _ sink => ⟨sink, rfl, rfl, rfl⟩

theorem meets_choose (start : Option LedgerNumber) :
    s.Meets a t fun size sink => (a.paged size).choose sink start := by
  cases start with
  | none => exact .here (.choosing none) fun _ sink => ⟨sink, rfl, rfl, rfl⟩
  | some ledger =>
    have hchoose (size : UInt32) (sink : Sink) : (a.paged size).choose sink (some ledger) =
        if a.pastStop ledger then Assignment.completed sink ledger
        else .waiting sink (.liveHealth (.choosing (some ledger))) := rfl
    simp only [hchoose]
    exact (meets_completed ledger).ite (.here (.choosing _) fun _ sink => ⟨sink, rfl, rfl, rfl⟩)

theorem meets_beginPoll (ledger latest : LedgerNumber) :
    s.Meets a t fun size sink => (a.paged size).beginPoll s.signals sink ledger latest :=
  .here (.polling ledger latest) fun _ sink => ⟨sink.measure .poll, rfl, rfl, rfl⟩

theorem meets_follow (ledger latest : LedgerNumber) :
    s.Meets a t fun size sink => (a.paged size).follow s.signals sink ledger latest := by
  have hfollow (size : UInt32) (sink : Sink) :
      (a.paged size).follow s.signals sink ledger latest =
        if a.pastStop ledger then Assignment.completed sink ledger
        else if latest < ledger then .waiting sink (.liveHealth (.following ledger))
        else (a.paged size).beginPoll s.signals sink ledger latest := rfl
  simp only [hfollow]
  refine (meets_completed ledger).ite (.ite ?_ (meets_beginPoll ledger latest))
  exact .here (.looking ledger) fun _ sink => ⟨sink, rfl, rfl, rfl⟩

theorem meets_endBackfill (target : LedgerNumber) :
    s.Meets a t fun size sink => (a.paged size).endBackfill sink target := by
  have hrequest (size : UInt32) : (a.paged size).request = a.request := rfl
  simp only [Assignment.endBackfill, hrequest]
  cases a.request with
  | archive => exact meets_completed _
  | live | combined => exact meets_choose _

theorem meets_backfill (next target : LedgerNumber) :
    s.Meets a t fun size sink => (a.paged size).backfill s.signals sink next target := by
  have hbrings (size : UInt32) (hsize : 0 < size) (before : List (Moment (a.paged size)))
      (sink : Sink) (hfits : t.Fits before sink) :
      s.Brings before ((a.paged size).backfill s.signals sink next target)
        (s.fillTo a.decoder next target t) fun sink => (a.paged size).endBackfill sink target :=
    backfill_brings hsize next target t before sink hfits
  exact .of_brings hbrings fun _ _ => meets_endBackfill target

theorem meets_withHealth (endpoint : String) (reply : Except NodeFailure Health)
    {go : UInt32 → Sink → Health → Progress}
    (h : ∀ health, s.Meets a t fun size sink => go size sink health) :
    s.Meets a t fun size sink => Assignment.withHealth sink endpoint (go size sink) reply := by
  cases reply with
  | error failure => exact meets_failed _
  | ok health => exact (h health).ite (meets_failed _)

theorem meets_beginAt (start : Option LedgerNumber) (health : Health) :
    s.Meets a t fun size sink => (a.paged size).beginAt s.signals sink start health := by
  have hbegin (size : UInt32) (sink : Sink) :
      (a.paged size).beginAt s.signals sink start health =
        if start.isNone && a.pastStop (start.getD health.latest) then
          Assignment.completed sink (start.getD health.latest)
        else if health.latest < start.getD health.latest then
          Assignment.failed sink (.aheadOfTip (start.getD health.latest) health.latest)
        else if health.oldestAvailable a.config.retentionMargin ≤ start.getD health.latest then
          (a.paged size).follow s.signals (sink.withFeed .live) (start.getD health.latest)
            health.latest
        else
          a.archive.elim
            (Assignment.failed sink (.notRetained (start.getD health.latest)
              (health.oldestAvailable a.config.retentionMargin) health.latest))
            fun _ => (a.paged size).backfill s.signals (sink.withFeed .backfill)
              (start.getD health.latest) (a.targetBelow health) := by
    have harchive : (a.paged size).archive = a.archive := rfl
    rw [Assignment.beginAt, harchive]
    cases a.archive <;> rfl
  simp only [hbegin]
  refine (meets_completed _).ite ((meets_failed _).ite (.ite ?_ ?_))
  · exact (meets_follow _ _).withFeed .live
  · cases a.archive with
    | none => exact meets_failed _
    | some => exact (meets_backfill _ _).withFeed .backfill

theorem meets_beginArchive (start stop : LedgerNumber) (health : Health) :
    s.Meets a t fun size sink => (a.paged size).beginArchive s.signals sink start stop health := by
  simp only [Assignment.beginArchive]
  exact (meets_failed _).ite (meets_backfill start stop)

theorem meets_wait (milliseconds : UInt64) (wait : Wait)
    (h : s.Meets a t fun size sink => (a.paged size).proceed s.signals sink wait) :
    s.Meets a t fun size sink => (a.paged size).wait s.signals sink milliseconds wait :=
  .of_brings (fun size _ before sink hfits => wait_brings hfits milliseconds wait) fun t' ht => by
    obtain rfl := Except.ok.inj ht
    exact h

theorem meets_followTo (ledger latest : LedgerNumber) :
    s.Meets a t fun size sink => (a.paged size).followTo s.signals sink ledger latest := by
  simp only [Assignment.followTo]
  exact (meets_wait a.config.liveWait _ (meets_follow ledger latest)).ite
    (meets_beginPoll ledger latest)

def Leads (s : Setting) (a : Assignment) (t : Tally) (station : Station) (t' : Tally)
    (station' : Station) : Prop :=
  ∀ size, 0 < size → ∀ (before : List (Moment (a.paged size))) (sink : Sink), t.Fits before sink →
    ∃ moments sink', moments ≠ [] ∧
      (s.world (a.paged size)).Leads before (station.progress s (a.paged size) sink) moments
        (station'.progress s (a.paged size) sink') ∧ t'.Fits (moments ++ before) sink'

theorem Meets.leads (hmeets : s.Meets a t' go)
    (h : ∀ size, 0 < size → ∀ (before : List (Moment (a.paged size))) (sink : Sink),
      t.Fits before sink → ∃ m sink', (s.world (a.paged size)).Leads before
        (station.progress s (a.paged size) sink) [m] (go size sink') ∧
          t'.Fits (m :: before) sink') :
    ∃ t'' station', s.Leads a t station t'' station' := by
  obtain ⟨t'', station', hmeets⟩ := hmeets
  refine ⟨t'', station', fun size hsize before sink hfits => ?_⟩
  obtain ⟨m, sink', hl, hfits'⟩ := h size hsize before sink hfits
  obtain ⟨later, sink'', hl', hfits''⟩ := hmeets size hsize _ sink' hfits'
  refine ⟨later ++ [m], sink'', by simp, hl.trans hl', ?_⟩
  rwa [List.append_assoc]

theorem leads_health {pending : Pending} {role : NodeRole} {endpoint : String}
    {go : UInt32 → Sink → Health → Progress}
    (hquestion : ∀ size before,
      ((s.world (a.paged size)).moment before pending).question = .health role)
    (hresume : ∀ size before sink, (s.world (a.paged size)).Leads before
      (station.progress s (a.paged size) sink) [(s.world (a.paged size)).moment before pending]
      (Assignment.withHealth sink endpoint (go size sink) (s.health role (healthQueries before))))
    (h : ∀ t health, s.Meets a t fun size sink => go size sink health) :
    ∃ t' station', s.Leads a t station t' station' := by
  have hmeets := meets_withHealth endpoint (s.health role t.queries)
    (h { t with queries := t.queries + 1 })
  refine hmeets.leads fun size _ before sink hfits => ?_
  have hl := hresume size before sink
  rw [hfits.queries] at hl
  exact ⟨_, sink, hl, hfits.asked (hquestion size before)⟩

/-- A poll deals with the same events in pages of any size. -/
theorem leads_poll (ledger latest : LedgerNumber) (t : Tally) :
    ∃ t' station', s.Leads a t (.polling ledger latest) t' station' := by
  let poll (size : UInt32) : Poll := ⟨ledger, latest, .ofLedger ledger s.filters size⟩
  let page (size : UInt32) := s.slice (s.tip .live t.queries) ledger 0 size.toNat
  have hbrings (size : UInt32) (hsize : 0 < size) (before : List (Moment (a.paged size)))
      (sink : Sink) (hfits : t.Fits before sink) :
      s.Brings before
        ((a.paged size).offerPage s.signals sink (poll size) (page size)
          ((page size).ofLedger ledger))
        (s.feed a.decoder t (s.due ledger 0)) fun sink =>
          (a.paged size).follow s.signals sink ledger.following
            (max latest (s.tip .live t.queries)) :=
    s.pages_bring_due hsize ledger 0 (poll size) _ t _ _ rfl rfl rfl rfl hfits
  have hmeets : s.Meets a t _ := .of_brings hbrings fun _ _ => meets_follow _ _
  refine hmeets.leads fun size _ before sink hfits => ?_
  have hfits' : t.Fits ([(s.world (a.paged size)).moment before (.events (poll size))] ++ before)
      (sink.measure (.page .live)) := hfits.quiet rfl rfl rfl rfl
  exact ⟨_, _, leads_page hfits rfl, hfits'⟩

theorem leads_next (station : Station) (hopen : ∀ result, station ≠ .ended result) (t : Tally) :
    ∃ t' station', s.Leads a t station t' station' := by
  cases station with
  | choosing start =>
    exact leads_health (fun _ _ => rfl) (fun _ _ _ => World.leads_moment ..)
      fun _ => meets_beginAt start
  | opening start stop =>
    exact @leads_health s a t _ _ .archive a.archiveEndpoint _ (fun _ _ => rfl)
      (fun _ _ _ => World.leads_moment ..) fun _ => meets_beginArchive start stop
  | looking ledger =>
    exact leads_health (fun _ _ => rfl) (fun _ _ _ => World.leads_moment ..)
      fun _ health => meets_followTo ledger health.latest
  | polling ledger latest => exact leads_poll ledger latest t
  | ended result => exact absurd rfl (hopen result)

theorem meets_begin (s : Setting) (a : Assignment) :
    ∃ (t : Tally) (station : Station), ∀ size, 0 < size →
      ∃ (moments : List (Moment (a.paged size))) (sink : Sink),
        (s.world (a.paged size)).Leads [] (a.paged size).begin moments
          (station.progress s (a.paged size) sink) ∧ t.Fits moments sink := by
  have hopen (feed : Feed) (size : UInt32) :
      Tally.Fits ⟨.ofCapacity a.config.dedupCapacity feed, [], 0⟩
        ([] : List (Moment (a.paged size))) (.ofCapacity a.config.dedupCapacity feed) :=
    ⟨rfl, rfl, rfl, rfl⟩
  cases hrequest : a.request with
  | archive start stop =>
    refine ⟨_, .opening start stop, fun size _ => ⟨[], _, ?_, hopen .backfill size⟩⟩
    have hrequest : (a.paged size).request = .archive start stop := hrequest
    rw [Assignment.begin, hrequest]
    exact .refl ..
  | live start stop | combined start stop =>
    obtain ⟨t, station, hmeets⟩ := @meets_choose s a
      ⟨.ofCapacity a.config.dedupCapacity .live, [], 0⟩ start
    refine ⟨t, station, fun size hsize => ?_⟩
    obtain ⟨moments, sink, hl, hfits⟩ := hmeets size hsize [] _ (hopen .live size)
    have hrequest : (a.paged size).request = _ := hrequest
    rw [Assignment.begin, hrequest]
    exact ⟨moments, sink, hl, by simpa using hfits⟩

theorem leads_far (s : Setting) (a : Assignment) (n : Nat) :
    ∃ (t : Tally) (station : Station), ∀ size, 0 < size →
      ∃ (moments : List (Moment (a.paged size))) (sink : Sink),
        (s.world (a.paged size)).Leads [] (a.paged size).begin moments
          (station.progress s (a.paged size) sink) ∧ t.Fits moments sink ∧
          ((∃ result, station = .ended result) ∨ n ≤ moments.length) := by
  induction n with
  | zero =>
    obtain ⟨t, station, hmeets⟩ := s.meets_begin a
    refine ⟨t, station, fun size hsize => ?_⟩
    obtain ⟨moments, sink, hl, hfits⟩ := hmeets size hsize
    exact ⟨moments, sink, hl, hfits, .inr (Nat.zero_le _)⟩
  | succ n ih =>
    obtain ⟨t, station, hmeets⟩ := ih
    by_cases hended : ∃ result, station = .ended result
    · refine ⟨t, station, fun size hsize => ?_⟩
      obtain ⟨moments, sink, hl, hfits, -⟩ := hmeets size hsize
      exact ⟨moments, sink, hl, hfits, .inl hended⟩
    obtain ⟨t', station', hnext⟩ :=
      @leads_next s a station (fun result h => hended ⟨result, h⟩) t
    refine ⟨t', station', fun size hsize => ?_⟩
    obtain ⟨moments, sink, hl, hfits, hlong⟩ := hmeets size hsize
    obtain ⟨later, sink', hne, hl', hfits'⟩ := hnext size hsize moments sink hfits
    have hlater := List.length_pos_iff.mpr hne
    refine ⟨later ++ moments, sink', hl.trans (by simpa using hl'), hfits', .inr ?_⟩
    rw [List.length_append]
    have := hlong.resolve_left hended
    omega

variable {p q : UInt32} {history moments : List (Moment a)} {sink : Sink}
  {events : List ContractEvent}

theorem suffix_of_leads {progress : Progress} (hm : (s.world a).Makes history)
    (h : a.Reaches history progress)
    (hl : (s.world a).Leads [] a.begin moments (station.progress s a sink))
    (hfar : (∃ result, station = .ended result) ∨ history.length ≤ moments.length) :
    history <:+ moments := by
  obtain ⟨hmakes, hreaches⟩ := hl.of_begin
  rcases Nat.le_total history.length moments.length with hle | hge
  · exact World.suffix_of_length_le h hm hreaches hmakes hle
  rcases hfar with ⟨result, rfl⟩ | hle
  · exact World.eq_of_ended hreaches hmakes h hm hge ▸ List.suffix_rfl
  · exact World.suffix_of_length_le h hm hreaches hmakes hle

def Hands (s : Setting) (a : Assignment) (events : List ContractEvent) : Prop :=
  ∃ (history : List (Moment a)) (progress : Progress),
    (s.world a).Makes history ∧ a.Reaches history progress ∧ received history = events

def Ends (s : Setting) (a : Assignment) (events : List ContractEvent)
    (result : Except IngestError Summary) : Prop :=
  ∃ (history : List (Moment a)) (sink : Sink) (exit : Except IngestError Exit),
    (s.world a).Makes history ∧ a.Reaches history (.ended sink exit) ∧
      received history = events ∧ (Engine.finish a.request.kind sink exit).result = result

theorem Hands.of_initial {progress : Progress} (hm : (s.world a).Makes history)
    (h : a.Reaches history progress) (hinitial : events <+: received history) :
    s.Hands a events := by
  induction history generalizing progress with
  | nil => exact ⟨[], progress, hm, h, (List.prefix_nil.mp hinitial).symm⟩
  | cons m before ih =>
    obtain ⟨earlier, hearlier⟩ := @Assignment.Reaches.of_append a before [m] progress h
    rw [received_cons] at hinitial
    cases hevent : m.question.event? with
    | none => exact ih hm.2 hearlier (by simpa [hevent] using hinitial)
    | some event =>
      rw [hevent, Option.toList_some, List.prefix_concat_iff] at hinitial
      rcases hinitial with heq | hinitial
      · exact ⟨m :: before, progress, hm, h, by rw [received_cons, hevent, heq]; rfl⟩
      · exact ih hm.2 hearlier hinitial

theorem Hands.paged (hp : 0 < p) (hq : 0 < q) (h : s.Hands (a.paged p) events) :
    s.Hands (a.paged q) events := by
  obtain ⟨history, progress, hm, hr, rfl⟩ := h
  obtain ⟨t, station, hfar⟩ := s.leads_far a history.length
  obtain ⟨moments, sink, hl, hfits, hlong⟩ := hfar p hp
  obtain ⟨moments', sink', hl', hfits', -⟩ := hfar q hq
  obtain ⟨later, rfl⟩ := suffix_of_leads hm hr hl hlong
  obtain ⟨hmakes, hreaches⟩ := hl'.of_begin
  refine .of_initial hmakes hreaches ?_
  rw [hfits'.given, ← hfits.given, received_append]
  exact List.prefix_append ..

theorem Ends.paged {result : Except IngestError Summary} (hp : 0 < p) (hq : 0 < q)
    (h : s.Ends (a.paged p) events result) : s.Ends (a.paged q) events result := by
  obtain ⟨history, sink, exit, hm, hr, rfl, rfl⟩ := h
  obtain ⟨t, station, hfar⟩ := s.leads_far a history.length
  obtain ⟨moments, sink₁, hl, hfits, hlong⟩ := hfar p hp
  obtain ⟨moments', sink₂, hl', hfits', -⟩ := hfar q hq
  obtain ⟨later, rfl⟩ := suffix_of_leads hm hr hl hlong
  obtain ⟨-, hreaches⟩ := hl.of_begin
  obtain ⟨hmakes', hreaches'⟩ := hl'.of_begin
  obtain ⟨rfl, hended⟩ := hr.eq_nil_of_ended hreaches
  obtain ⟨rfl, rfl⟩ := station.eq_ended_of_progress hended
  refine ⟨moments', sink₂, exit, hmakes', hreaches', ?_, ?_⟩
  · exact hfits'.given.trans hfits.given.symm
  · exact Engine.result_finish (hfits'.delivered.trans hfits.delivered.symm) ..

end Setting

def Engine.paged (e : Engine) (size : UInt32) : Engine :=
  { e with config := { e.config with pageSize := size } }

/-- In a setting that is the same for both, an engine with another page size refuses the same runs.
Of a run that it lets in, the handler gets the same events in the same order, and the run ends, if
it does, after the same events and with the same summary or error. -/
theorem page_size_is_unobservable (s : Setting) (e : Engine) (request : RunRequest) {p q : UInt32}
    (hp : 0 < p) (hq : 0 < q) :
    (∀ error, ((e.paged p).start request).2 = .error error ↔
      ((e.paged q).start request).2 = .error error) ∧
    (∀ events, s.Hands ((e.paged p).assign request) events ↔
      s.Hands ((e.paged q).assign request) events) ∧
    ∀ events result, s.Ends ((e.paged p).assign request) events result ↔
      s.Ends ((e.paged q).assign request) events result := by
  have hassign (size : UInt32) : (e.paged size).assign request = (e.assign request).paged size :=
    rfl
  refine ⟨fun error => ?_, fun events => ?_, fun events result => ?_⟩
  · exact (e.start_eq_error_iff _ request error).trans (e.start_eq_error_iff _ request error).symm
  · rw [hassign, hassign]
    exact ⟨.paged hp hq, .paged hq hp⟩
  · rw [hassign, hassign]
    exact ⟨.paged hp hq, .paged hq hp⟩

def shelvedSetting : Setting where
  listing ledger :=
    if ledger = 7 then
      [sampleEvent 7 "c", sampleEvent 7 "c", sampleEvent 7 "d", sampleEvent 8 "e"]
    else []
  cursor ledger n := .ofList (.replicate ledger.toNat 'l' ++ .replicate n 'n')
  place cursor := (.ofNat (cursor.toList.count 'l'), cursor.toList.count 'n')
  place_cursor ledger n := by simp [List.count_replicate]
  stored := [⟨5, "", "", "", [sampleEvent 5 "a"]⟩, ⟨6, "", "", "", [sampleEvent 6 "b"]⟩]
  health _ _ := .ok ⟨true, 7, 9, 3⟩
  tip _ _ := 9
  oldest := 5
  verdict _ _ := .accepted
  filters := []

def shelvedEngine : Engine where
  config := { EngineConfig.default with retentionMargin := 0 }
  urls := .ofList []
  decoder := .standard
  live := "live"
  archive := some "archive"
  filters := []
  control := .initial

def shelvedRun (size : UInt32) : Assignment :=
  (shelvedEngine.paged size).assign (.combined (some 5) (some 7))

def shelvedEvents : List ContractEvent :=
  Decoder.standard.selected []
    [sampleEvent 5 "a", sampleEvent 6 "b", sampleEvent 7 "c", sampleEvent 7 "d"]

theorem shelvedRun_ends :
    shelvedSetting.Ends (shelvedRun 100) shelvedEvents (.ok ⟨.completed, 4, 8⟩) := by
  have hleads : (shelvedSetting.world (shelvedRun 100)).Leads [] (shelvedRun 100).begin _ _ :=
    .step (.step (.step (.step (.step (.step (.step (.step (.refl _ (.ended _ _)))))))))
  obtain ⟨hmakes, hreaches⟩ := hleads.of_begin
  exact ⟨_, _, _, hmakes, hreaches, rfl, rfl⟩

theorem shelvedRun_page_size_is_unobservable : (0 : UInt32) < 100 ∧ (0 : UInt32) < 1 ∧
    shelvedSetting.Ends (shelvedRun 100) shelvedEvents (.ok ⟨.completed, 4, 8⟩) ∧
    shelvedSetting.Ends (shelvedRun 1) shelvedEvents (.ok ⟨.completed, 4, 8⟩) := by
  have hmany : (0 : UInt32) < 100 := by decide
  have hone : (0 : UInt32) < 1 := by decide
  obtain ⟨-, -, hends⟩ := page_size_is_unobservable shelvedSetting shelvedEngine
    (.combined (some 5) (some 7)) hmany hone
  exact ⟨hmany, hone, shelvedRun_ends, (hends _ _).mp shelvedRun_ends⟩

end LedgerFeed
