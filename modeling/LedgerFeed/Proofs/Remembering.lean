import LedgerFeed.Proofs.Stopping

/-! What a run remembers against duplicates: the ids that it settled last, by the handler's
acceptance or by the filters. So an event is skipped only shortly after its id was settled, and its
id is settled again only long after. -/

namespace LedgerFeed

/-- Whether an event's id is remembered, once the handler has accepted the event if it has to. -/
def Judgement.settles : Judgement → Bool
  | filtered | wanted _ => true
  | duplicate | undecodable _ => false

def settledIds (offers : List (RawEvent × Judgement)) : List String :=
  (offers.filter (·.2.settles)).map (·.1.id)

def handed? : RawEvent × Judgement → Option RawEvent
  | (raw, .wanted _) => some raw
  | _ => none

def handed (offers : List (RawEvent × Judgement)) : List RawEvent :=
  offers.filterMap handed?

section

variable {a : Assignment}

def Moment.acceptedRaw? : Moment a → Option RawEvent
  | ⟨.verdict raw _ _, _, .accepted⟩ => some raw
  | _ => none

def acceptedRaws (history : List (Moment a)) : List RawEvent :=
  history.filterMap Moment.acceptedRaw?

end

/-- An event is a duplicate just if its id is one of the last ones that were settled before. -/
def Lawful (capacity : Nat) (offers : List (RawEvent × Judgement)) : Prop :=
  ∀ raw judgement earlier, (raw, judgement) :: earlier <:+ offers →
    (judgement = .duplicate ↔ raw.id ∈ (settledIds earlier).take capacity)

section

variable {offers earlier later : List (RawEvent × Judgement)} {raw : RawEvent} {id : String}
  {judgement : Judgement} {event : ContractEvent} {capacity : Nat}

@[simp] theorem settledIds_append :
    settledIds (later ++ earlier) = settledIds later ++ settledIds earlier := by
  simp [settledIds]

theorem settledIds_cons (h : judgement.settles = true) :
    settledIds ((raw, judgement) :: earlier) = raw.id :: settledIds earlier := by
  simp [settledIds, h]

theorem settledIds_cons_of_not (h : judgement.settles = false) :
    settledIds ((raw, judgement) :: earlier) = settledIds earlier := by
  simp [settledIds, h]

@[simp] theorem handed_append : handed (later ++ earlier) = handed later ++ handed earlier := by
  simp [handed]

@[simp] theorem handed_cons_wanted :
    handed ((raw, .wanted event) :: earlier) = raw :: handed earlier := rfl

theorem eq_wanted_of_handed? {entry : RawEvent × Judgement} (h : handed? entry = some raw) :
    ∃ event, entry = (raw, .wanted event) := by
  obtain ⟨raw', judgement⟩ := entry
  cases judgement with
  | wanted event => exact ⟨event, congrArg (·, _) (Option.some.inj h)⟩
  | duplicate | undecodable | filtered => cases h

theorem handed_eq_append_cons {ys zs : List RawEvent} (h : handed offers = ys ++ raw :: zs) :
    ∃ later event earlier, offers = later ++ (raw, .wanted event) :: earlier ∧
      handed later = ys ∧ handed earlier = zs := by
  obtain ⟨before, rest, rfl, rfl, hrest⟩ := List.filterMap_eq_append_iff.mp h
  obtain ⟨quiet, entry, earlier, rfl, hquiet, hentry, rfl⟩ := List.filterMap_eq_cons_iff.mp hrest
  obtain ⟨event, rfl⟩ := eq_wanted_of_handed? hentry
  refine ⟨before ++ quiet, event, earlier, by simp, ?_, rfl⟩
  rw [handed_append, show handed quiet = [] from List.filterMap_eq_nil_iff.mpr hquiet,
    List.append_nil]
  rfl

theorem lawful_nil : Lawful capacity [] := by
  intro raw judgement earlier h
  cases List.suffix_nil.mp h

theorem Lawful.cons (h : Lawful capacity offers)
    (hnew : judgement = .duplicate ↔ raw.id ∈ (settledIds offers).take capacity) :
    Lawful capacity ((raw, judgement) :: offers) := by
  intro raw' judgement' earlier hsuffix
  rcases List.suffix_cons_iff.mp hsuffix with heq | hsuffix
  · obtain ⟨hentry, rfl⟩ := List.cons.inj heq
    obtain ⟨rfl, rfl⟩ := Prod.mk.inj hentry
    exact hnew
  · exact h raw' judgement' earlier hsuffix

theorem Lawful.of_suffix (h : Lawful capacity offers) (hsuffix : earlier <:+ offers) :
    Lawful capacity earlier :=
  fun raw judgement before hbefore => h raw judgement before (hbefore.trans hsuffix)

theorem Lawful.nodup (h : Lawful capacity offers) :
    ((settledIds offers).take capacity).Nodup := by
  induction offers with
  | nil => simp [settledIds]
  | cons entry earlier ih =>
    obtain ⟨raw, judgement⟩ := entry
    have hearlier := ih (h.of_suffix (List.suffix_cons ..))
    cases hs : judgement.settles with
    | false => rwa [settledIds_cons_of_not hs]
    | true =>
      have hnew : raw.id ∉ (settledIds earlier).take capacity := by
        rw [← h raw judgement earlier List.suffix_rfl]
        rintro rfl
        cases hs
      rw [settledIds_cons hs]
      cases capacity with
      | zero => exact List.nodup_nil
      | succ n =>
        have hshorter : (settledIds earlier).take n <+: (settledIds earlier).take (n + 1) :=
          List.take_prefix_take_left (Nat.le_succ n)
        rw [List.take_succ_cons]
        exact List.nodup_cons.mpr
          ⟨fun hmem => hnew (hshorter.subset hmem), hearlier.sublist hshorter.sublist⟩

theorem last_settled (h : id ∈ (settledIds offers).take capacity) :
    ∃ since raw judgement earlier, offers = since ++ (raw, judgement) :: earlier ∧ raw.id = id ∧
      judgement.settles = true ∧ id ∉ settledIds since ∧ (settledIds since).length < capacity := by
  induction offers generalizing capacity with
  | nil => simp [settledIds] at h
  | cons entry offers ih =>
    obtain ⟨raw, judgement⟩ := entry
    cases hs : judgement.settles with
    | false =>
      rw [settledIds_cons_of_not hs] at h
      obtain ⟨since, raw', judgement', earlier, rfl, hid, hsettles, hnot, hlt⟩ := ih h
      refine ⟨(raw, judgement) :: since, raw', judgement', earlier, rfl, hid, hsettles, ?_⟩
      rw [settledIds_cons_of_not hs]
      exact ⟨hnot, hlt⟩
    | true =>
      rw [settledIds_cons hs] at h
      obtain ⟨n, rfl⟩ : ∃ n, capacity = n + 1 :=
        Nat.exists_eq_succ_of_ne_zero (by rintro rfl; cases h)
      -- every other id that was settled since takes up a place of the window
      by_cases hid : raw.id = id
      · exact ⟨[], raw, judgement, offers, rfl, hid, hs, by simp [settledIds]⟩
      · rw [List.take_succ_cons, List.mem_cons] at h
        obtain ⟨since, raw', judgement', earlier, rfl, hid', hsettles, hnot, hlt⟩ :=
          ih (h.resolve_left (Ne.symm hid))
        refine ⟨(raw, judgement) :: since, raw', judgement', earlier, rfl, hid', hsettles, ?_⟩
        rw [settledIds_cons hs, List.mem_cons, List.length_cons]
        exact ⟨fun hmem => hmem.elim (Ne.symm hid) hnot, Nat.succ_lt_succ hlt⟩

theorem Lawful.apart {first : RawEvent} {judgement' : Judgement}
    (h : Lawful capacity ((raw, judgement) :: (later ++ (first, judgement') :: earlier)))
    (hne : judgement ≠ .duplicate) (hs : judgement'.settles = true) (hid : first.id = raw.id) :
    ∃ ids : List String, ids.Nodup ∧ capacity ≤ ids.length ∧ raw.id ∉ ids ∧
      ids ⊆ settledIds later := by
  have hnew : raw.id ∉ (settledIds later ++ raw.id :: settledIds earlier).take capacity := by
    rw [← hid, ← settledIds_cons hs, ← settledIds_append, hid, ← h raw judgement _ List.suffix_rfl]
    exact hne
  have hle : capacity ≤ (settledIds later).length := by
    refine Nat.not_lt.mp fun hlt => hnew ?_
    obtain ⟨n, hn⟩ := Nat.exists_eq_add_of_lt hlt
    rw [List.take_append, hn, show (settledIds later).length + n + 1 - (settledIds later).length =
      n + 1 by omega, List.take_succ_cons]
    exact List.mem_append_right _ (List.mem_cons_self ..)
  rw [List.take_append_of_le_length hle] at hnew
  have hnodup := (h.of_suffix (List.suffix_cons ..)).nodup
  rw [settledIds_append, List.take_append_of_le_length hle] at hnodup
  exact ⟨(settledIds later).take capacity, hnodup, by simp [hle], hnew, List.take_subset ..⟩

end

variable {a : Assignment} {signals : Signals} {sink sink' : Sink} {point point' : Point}
  {pending : Pending} {history : List (Moment a)} {decided : List (RawEvent × Judgement)}
  {raw : RawEvent} {event : ContractEvent} {judgement : Judgement}

namespace Assignment

structure Recalls (a : Assignment) (history : List (Moment a)) (sink : Sink)
    (decided : List (RawEvent × Judgement)) : Prop where
  ids : sink.recent.ids = (settledIds decided).take sink.recent.capacity
  capacity : sink.recent.capacity = max a.config.dedupCapacity.toNat 1
  accepted : handed decided = acceptedRaws history
  lawful : Lawful sink.recent.capacity sink.offers

def Judging (a : Assignment) (history : List (Moment a)) (sink : Sink) (raw : RawEvent) : Prop :=
  ∃ event decided, sink.offers = (raw, .wanted event) :: decided ∧ a.Recalls history sink decided

def Recalling (a : Assignment) (history : List (Moment a)) (sink : Sink) : Point → Prop
  | .asking (.verdict raw _ _) => a.Judging history sink raw
  | .ended _ => a.Recalls history sink sink.offers ∨ ∃ raw, a.Judging history sink raw
  | _ => a.Recalls history sink sink.offers

theorem Recalls.quiet (h : a.Recalls history sink decided) {m : Moment a}
    (hm : m.acceptedRaw? = none) (hr : sink'.recent = sink.recent)
    (ho : sink'.offers = sink.offers) :
    a.Recalls (m :: history) sink' decided := by
  refine ⟨hr ▸ h.ids, hr ▸ h.capacity, ?_, hr ▸ ho ▸ h.lawful⟩
  rw [h.accepted, acceptedRaws, acceptedRaws, List.filterMap_cons_none hm]

theorem Recalls.same (h : a.Recalls history sink decided) (hr : sink'.recent = sink.recent)
    (ho : sink'.offers = sink.offers) : a.Recalls history sink' decided :=
  ⟨hr ▸ h.ids, hr ▸ h.capacity, h.accepted, hr ▸ ho ▸ h.lawful⟩

theorem Recalls.contains (h : a.Recalls history sink decided) :
    sink.recent.contains raw.id = true ↔
      raw.id ∈ (settledIds decided).take sink.recent.capacity := by
  rw [RecentIds.contains, List.contains_iff_mem, h.ids]

theorem Recalls.settle (h : a.Recalls history sink decided)
    (ho : sink.offers = (raw, judgement) :: decided) (hs : judgement.settles = true)
    {history' : List (Moment a)} (ha : handed sink.offers = acceptedRaws history')
    (hr : sink'.recent = sink.recent.record raw.id) (ho' : sink'.offers = sink.offers) :
    a.Recalls history' sink' sink'.offers := by
  have hcapacity : sink'.recent.capacity = sink.recent.capacity := by
    rw [hr, RecentIds.capacity_record]
  -- only a duplicate's id is remembered when it is offered
  have hnew : sink.recent.contains raw.id = false := by
    rw [Bool.eq_false_iff, ne_eq, h.contains, ← h.lawful raw judgement decided]
    · rintro rfl
      cases hs
    · exact ho ▸ List.suffix_rfl
  refine ⟨?_, hcapacity.trans h.capacity, ho'.symm ▸ ha, hcapacity.symm ▸ ho'.symm ▸ h.lawful⟩
  rw [hcapacity, hr, ho', ho, settledIds_cons hs, RecentIds.ids_record_of_not_contains hnew, h.ids]
  cases sink.recent.capacity with
  | zero => rfl
  | succ n => simp [List.take_take]

theorem Recalls.note (h : a.Recalls history sink sink.offers) {filters : List EventFilter}
    (hj : sink.judge a.decoder filters raw = judgement) :
    a.Recalls history (sink.note raw judgement) sink.offers := by
  refine ⟨h.ids, h.capacity, h.accepted, h.lawful.cons ?_⟩
  rw [← h.contains, ← hj, Sink.judge_eq_duplicate_iff]

theorem Recalls.pass (h : a.Recalls history sink decided)
    (ho : sink.offers = (raw, judgement) :: decided)
    (hs : judgement.settles = false) : a.Recalls history sink sink.offers := by
  have hhanded : handed sink.offers = handed decided := by
    rw [ho]
    cases judgement with
    | duplicate | undecodable => rfl
    | filtered | wanted => cases hs
  exact ⟨by rw [h.ids, ho, settledIds_cons_of_not hs], h.capacity, hhanded.trans h.accepted,
    h.lawful⟩

theorem acceptedRaw?_of_failure? {reply : (pending.question a).Reply} {error : IngestError}
    (h : a.failure? sink pending reply = some error) :
    (⟨pending, signals, reply⟩ : Moment a).acceptedRaw? = none := by
  cases pending with
  | verdict =>
    cases reply with
    | accepted => cases h
    | failed | panicked => rfl
  | liveHealth | archiveHealth | ledgers | events | pause => rfl

theorem Hears.recalling {reply : (pending.question a).Reply}
    (h : a.Hears signals sink pending reply sink' point)
    (hr : a.Recalling history sink (.asking pending)) :
    a.Recalling (⟨pending, signals, reply⟩ :: history) sink' point := by
  cases h with
  | failed hf =>
    have hm := @acceptedRaw?_of_failure? a signals _ _ _ _ hf
    cases pending with
    | verdict raw =>
      obtain ⟨event, decided, ho, h⟩ := hr
      exact .inr ⟨raw, event, decided, ho, h.quiet hm rfl rfl⟩
    | liveHealth | archiveHealth | ledgers | events | pause => exact .inl (hr.quiet hm rfl rfl)
  | tipPast | stopped | ahead | refused | archiveAhead => exact .inl (hr.quiet rfl rfl rfl)
  | within | below | unclosed | closed | archiveReady | ledgers | events | rested =>
    exact hr.quiet rfl rfl rfl
  | @accepted raw event origin =>
    obtain ⟨event, decided, ho, h⟩ := hr
    refine h.settle ho rfl ?_ rfl rfl
    rw [ho, handed_cons_wanted, h.accepted]
    rfl

theorem Moves.recalling (h : a.Moves signals sink point sink' point')
    (hr : a.Recalling history sink point) : a.Recalling history sink' point' := by
  cases h with
  | duplicate hs h hj => exact ((hr.note hj).pass rfl rfl).same rfl rfl
  | filtered hs h hj => exact (hr.note hj).settle rfl rfl hr.accepted rfl rfl
  | undecodable hs h hj => exact .inl ((hr.note hj).pass rfl rfl)
  | askHandler hs h hj => exact ⟨_, _, rfl, hr.note hj⟩
  | stop _ h =>
    cases point with
    | backfilling | following | requesting | offering | resting => exact .inl hr
    | choosing | backfilled | taking | taken | paged | polled | asking | ended => cases h
  | choosePast | endArchive | gap | unreadable | noProgress | followPast | hitStop | endPolls =>
    exact .inl (hr.same rfl rfl)
  | @proceed wait => cases wait <;> exact hr
  | askHealth | reachTarget | askBatch | chooseAgain | skipLedger | endLedgers | read | endPage
    | endLedger | endAtLast | endBatches | nextBatch | askTip | beginPoll | askPage | drained
    | nextPage | restAtTip | followOn | pause => exact hr.same rfl rfl

theorem begin_recalling (a : Assignment) : a.Recalling [] a.begin.sink a.begin.point := by
  have hempty (feed : Feed) :
      a.Recalls [] (.ofCapacity a.config.dedupCapacity feed)
        (Sink.ofCapacity a.config.dedupCapacity feed).offers :=
    ⟨by simp [settledIds, Sink.ofCapacity, RecentIds.ofCapacity], rfl, rfl, lawful_nil⟩
  rcases begin_cases a with ⟨_, _, -, hbegin⟩ | ⟨-, ⟨-, hbegin⟩ | ⟨_, -, -, hbegin⟩⟩
  · exact hbegin ▸ hempty .backfill
  · exact hbegin ▸ hempty .live
  · exact hbegin ▸ .inl (hempty .live)

/-- Wherever a run gets, all offers but the latest one are decided. -/
theorem Reaches.recalls {p : Progress} (h : a.Reaches history p) :
    ∃ decided, a.Recalls history p.sink decided ∧ (p.sink.offers = decided ∨
      ∃ raw event, p.sink.offers = (raw, .wanted event) :: decided) := by
  have hr := h.invariant (I := a.Recalling) (begin_recalling a) (fun _ hr h => h.recalling hr)
    fun hr h => h.recalling hr
  have hjudging {sink : Sink} {raw : RawEvent} (h : a.Judging history sink raw) :
      ∃ decided, a.Recalls history sink decided ∧ (sink.offers = decided ∨
        ∃ raw event, sink.offers = (raw, .wanted event) :: decided) := by
    obtain ⟨event, decided, ho, h⟩ := h
    exact ⟨decided, h, .inr ⟨raw, event, ho⟩⟩
  cases p with
  | ended sink result =>
    rcases hr with hr | ⟨raw, hr⟩
    · exact ⟨_, hr, .inl rfl⟩
    · exact hjudging hr
  | waiting sink pending =>
    cases pending with
    | verdict => exact hjudging hr
    | liveHealth | archiveHealth | ledgers | events | pause => exact ⟨_, hr, .inl rfl⟩

end Assignment

/-- The law of the window, over the events that were accepted and all that were offered, latest
first. -/
structure Remembers (capacity : Nat) (accepted : List RawEvent)
    (offers : List (RawEvent × Judgement)) : Prop where
  apart : ∀ {later between earlier : List RawEvent} {raw raw' : RawEvent},
    accepted = later ++ raw' :: (between ++ raw :: earlier) → raw'.id = raw.id →
    ∃ after event' since event before ids,
      offers = after ++ (raw', .wanted event') :: (since ++ (raw, .wanted event) :: before) ∧
      handed since = between ∧
      ids.Nodup ∧ capacity ≤ ids.length ∧ raw.id ∉ ids ∧ ids ⊆ settledIds since
  skipped : ∀ {later earlier : List (RawEvent × Judgement)} {raw : RawEvent},
    offers = later ++ (raw, .duplicate) :: earlier →
    ∃ since first judgement before, earlier = since ++ (first, judgement) :: before ∧
      first.id = raw.id ∧ (judgement = .filtered ∨ first ∈ accepted) ∧
      raw.id ∉ settledIds since ∧ (settledIds since).length < capacity

theorem Assignment.Recalls.remembers (h : a.Recalls history sink decided)
    (ho : sink.offers = decided ∨ ∃ raw event, sink.offers = (raw, .wanted event) :: decided) :
    Remembers sink.recent.capacity (acceptedRaws history) sink.offers := by
  constructor
  · intro later between earlier raw raw' haccepted hid
    obtain ⟨after, event', rest, hdecided, -, hrest⟩ :=
      handed_eq_append_cons (h.accepted.trans haccepted)
    obtain ⟨since, event, before, rfl, hsince, -⟩ := handed_eq_append_cons hrest
    obtain ⟨latest, hlatest⟩ : ∃ latest, sink.offers = latest ++ decided := by
      rcases ho with ho | ⟨raw, event, ho⟩
      · exact ⟨[], ho⟩
      · exact ⟨[(raw, .wanted event)], ho⟩
    have hoffers : sink.offers = (latest ++ after) ++
        (raw', .wanted event') :: (since ++ (raw, .wanted event) :: before) := by
      rw [hlatest, hdecided, List.append_assoc]
    have hlawful := h.lawful.of_suffix ⟨_, hoffers.symm⟩
    obtain ⟨ids, hnodup, hle, hnot, hsub⟩ := hlawful.apart (by simp) rfl hid.symm
    exact ⟨_, event', since, event, before, ids, hoffers, hsince, hnodup, hle, hid ▸ hnot, hsub⟩
  · intro later earlier raw hoffers
    have hmem := (h.lawful raw .duplicate earlier ⟨later, hoffers.symm⟩).mp rfl
    obtain ⟨since, first, judgement, before, rfl, hid, hsettles, hnot, hlt⟩ := last_settled hmem
    refine ⟨since, first, judgement, before, rfl, hid, ?_, hnot, hlt⟩
    -- the offer that the handler is still to judge is no duplicate, so it lies outside
    have hfirst : (first, judgement) ∈ decided := by
      rcases ho with ho | ⟨latest, event, ho⟩
      · simp [← ho, hoffers]
      · rw [ho] at hoffers
        cases later with
        | nil => cases (List.cons.inj hoffers).1
        | cons _ later => simp [(List.cons.inj hoffers).2]
    cases judgement with
    | filtered => exact .inl rfl
    | wanted event =>
      exact .inr (h.accepted ▸ List.mem_filterMap.mpr ⟨_, hfirst, rfl⟩)
    | duplicate | undecodable => cases hsettles

theorem Engine.start_sink {e : Engine} {request : RunRequest} {run : Run}
    (h : (e.start request).2 = .ok (.underWay run)) :
    run.sink.recent.ids = [] ∧ run.sink.offers = [] := by
  have hflight := flight_of_start h
  rcases (e.assign request).begin_cases with
    ⟨_, _, -, hbegin⟩ | ⟨-, ⟨-, hbegin⟩ | ⟨_, -, -, hbegin⟩⟩
  all_goals rw [hbegin] at hflight
  · exact Flight.underWay.inj hflight ▸ ⟨rfl, rfl⟩
  · exact Flight.underWay.inj hflight ▸ ⟨rfl, rfl⟩
  · cases hflight

/-- Whatever a run is answered, it keeps the law of its window; and it begins with nothing
remembered. -/
theorem dedup_law {e : Engine} {request : RunRequest} {flight : Flight}
    (hstart : (e.start request).2 = .ok flight) (hcapacity : 1 ≤ e.config.dedupCapacity)
    {history : List (Moment (e.assign request))} {p : Progress}
    (h : (e.assign request).Reaches history p) :
    Remembers e.config.dedupCapacity.toNat (acceptedRaws history) p.sink.offers ∧
    ∀ run, flight = .underWay run → run.sink.recent.ids = [] ∧ run.sink.offers = [] := by
  obtain ⟨decided, hrecalls, ho⟩ := h.recalls
  have hmax : p.sink.recent.capacity = e.config.dedupCapacity.toNat :=
    hrecalls.capacity.trans (Nat.max_eq_left (UInt64.le_iff_toNat_le.mp hcapacity))
  refine ⟨hmax ▸ hrecalls.remembers ho, fun run hrun => ?_⟩
  exact Engine.start_sink (hrun ▸ hstart)

def forgetfulEngine : Engine :=
  { crossingEngine with config := { crossing.config with dedupCapacity := 1 } }

def forgetfulRequest : RunRequest :=
  .live (some 4) (some 4)

def forgetfulPage : EventsPage :=
  ⟨[sampleEvent 4 "a", sampleEvent 4 "a", sampleEvent 4 "b", sampleEvent 4 "a"], 5, none⟩

theorem forgetful_dedup_law :
    ∃ (flight : Flight) (history : List (Moment (forgetfulEngine.assign forgetfulRequest)))
      (sink : Sink) (result : Except IngestError Exit),
      (forgetfulEngine.start forgetfulRequest).2 = .ok flight ∧
      1 ≤ forgetfulEngine.config.dedupCapacity ∧
      (forgetfulEngine.assign forgetfulRequest).Reaches history (.ended sink result) ∧
      Remembers 1 (acceptedRaws history) sink.offers ∧
      (acceptedRaws history).map RawEvent.id = ["a", "b", "a"] ∧
      settledIds sink.offers = ["a", "b", "a"] ∧ sink.offers.length = 4 := by
  have hthird := Assignment.Reaches.replayed (a := forgetfulEngine.assign forgetfulRequest) (quietly
    [.health (.ok ⟨true, 4, 5, 4⟩), .events (.ok forgetfulPage), .verdict .accepted,
      .verdict .accepted, .verdict .accepted]) rfl
  exact ⟨_, _, _, _, rfl, by decide, hthird, (dedup_law rfl (by decide) hthird).1, rfl, rfl, rfl⟩

end LedgerFeed
