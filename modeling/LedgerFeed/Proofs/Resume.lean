import LedgerFeed.Proofs.Backfill
import LedgerFeed.Proofs.Standing

/-! Resuming a run at the ledger that it reported. The new run is let in where that ledger lies in
the window of the last health that was reported, or below it with an archive; one past the tip it
is refused until the tip has moved. -/

namespace LedgerFeed

/-- The request for a run of the same kind, from a ledger on and without an end. -/
def RunRequest.onwards (request : RunRequest) (ledger : LedgerNumber) : RunRequest :=
  match request with
  | .live .. => .live (some ledger) none
  | .archive _ stop => .archive ledger stop
  | .combined .. => .combined (some ledger) none

def Progress.AheadOfTip (p : Progress) : Prop :=
  ∃ sink first latest, p = Assignment.failed sink (.aheadOfTip first latest)

def Progress.NotRetained (p : Progress) : Prop :=
  ∃ sink first oldest latest, p = Assignment.failed sink (.notRetained first oldest latest)

variable {a : Assignment} {history : List (Moment a)} {sink : Sink} {ledger : LedgerNumber}
  {health : Health}

namespace Assignment

theorem liveHealth_of_begin (hkind : a.request.kind ≠ .archive) {pending : Pending}
    (h : a.begin = .waiting sink pending) : ∃ start, pending = .liveHealth (.choosing start) := by
  rw [begin_eq_choose hkind] at h
  unfold choose at h
  split at h
  · exact ⟨none, (Progress.waiting.inj h).2.symm⟩
  · split at h
    · cases h
    · exact ⟨_, (Progress.waiting.inj h).2.symm⟩

theorem healthy_of_resume {signals : Signals} {use : HealthUse}
    (h : ∀ s error, a.resume signals sink (.liveHealth use) (.ok health) ≠ failed s error) :
    health.healthy = true := by
  cases hhealthy : health.healthy with
  | true => rfl
  | false =>
    refine absurd ?_ (h sink (.unhealthy a.live))
    cases use <;> simp [resume, withHealth, hhealthy]

theorem Reaches.healths (hkind : a.request.kind ≠ .archive) {p : Progress} (h : a.Reaches history p)
    (hp : ∀ s error, p ≠ failed s error) :
    (history ≠ [] → healths history ≠ []) ∧ ∀ health ∈ healths history, health.healthy = true := by
  induction h with
  | begin => exact ⟨fun h => absurd rfl h, by simp [LedgerFeed.healths]⟩
  | @resume before sink pending h signals reply ih =>
    obtain ⟨hne, hall⟩ := ih (fun s error => by simp [failed])
    cases pending with
    | liveHealth use =>
      cases reply with
      | error failure =>
        refine absurd ?_ (hp sink (.node a.live failure))
        cases use <;> rfl
      | ok health =>
        refine ⟨fun _ => List.cons_ne_nil health _, fun h hmem => ?_⟩
        rcases List.mem_cons.mp hmem with rfl | hmem
        · exact healthy_of_resume hp
        · exact hall h hmem
    | archiveHealth | ledgers | events | verdict | pause =>
      refine ⟨fun _ => hne ?_, hall⟩
      rintro rfl
      obtain ⟨start, hstart⟩ := liveHealth_of_begin hkind (h.unique .begin).symm
      cases hstart

theorem pastStop_of_check (h : a.request.check = .ok ()) {start : LedgerNumber}
    (hstart : a.request.start? = some start) : a.pastStop start = false := by
  refine pastStop_eq_false_iff.mpr fun stop hstop => ?_
  unfold RunRequest.check at h
  simp only [hstart, hstop] at h
  split at h
  · cases h
  · rename_i hlt
    exact UInt32.not_lt.mp hlt

theorem begin_waits (hkind : a.request.kind ≠ .archive) (h : a.request.check = .ok ()) :
    a.begin = .waiting (.ofCapacity a.config.dedupCapacity .live)
      (.liveHealth (.choosing a.request.start?)) := by
  rw [begin_eq_choose hkind]
  cases hstart : a.request.start? with
  | none => rfl
  | some start => rw [choose, pastStop_of_check h hstart, if_neg (by simp)]

theorem follow_ne_failed (signals : Signals) (sink s : Sink) (ledger latest : LedgerNumber)
    (error : IngestError) : a.follow signals sink ledger latest ≠ failed s error := by
  unfold follow beginPoll requestPage completed stopped failed
  split
  · simp
  split
  · simp
  split <;> simp

theorem backfill_ne_failed (signals : Signals) (sink s : Sink) (next target : LedgerNumber)
    (error : IngestError) : a.backfill signals sink next target ≠ failed s error := by
  unfold backfill
  split
  · exact endBackfill_ne_failed sink s target error
  · unfold stopped failed
    split <;> simp

/-- Whether a run is refused at its first answer depends on the ledger and the health alone. -/
theorem refused_at_first_iff {signals : Signals} (hs : signals.stop = false)
    (hhealthy : health.healthy = true) (sink : Sink) (ledger : LedgerNumber) :
    ((a.resume signals sink (.liveHealth (.choosing (some ledger))) (.ok health)).AheadOfTip ↔
      health.latest < ledger) ∧
    ((a.resume signals sink (.liveHealth (.choosing (some ledger))) (.ok health)).NotRetained ↔
      ledger ≤ health.latest ∧ ledger < health.oldestAvailable a.config.retentionMargin ∧
        a.archive = none) := by
  have hresume : a.resume signals sink (.liveHealth (.choosing (some ledger))) (.ok health) =
      a.beginAt signals sink (some ledger) health := by
    simp [resume, withHealth, hhealthy]
  rw [hresume, beginAt]
  simp only [Option.isNone_some, Bool.false_and, Bool.false_eq_true, if_false, hs,
    Option.getD_some]
  by_cases hahead : health.latest < ledger
  · rw [if_pos hahead]
    refine ⟨iff_of_true ⟨sink, _, _, rfl⟩ hahead, iff_of_false ?_ fun h => ?_⟩
    · rintro ⟨_, _, _, _, h⟩
      cases h
    · exact UInt32.not_lt.mpr h.1 hahead
  rw [if_neg hahead]
  by_cases holdest : health.oldestAvailable a.config.retentionMargin ≤ ledger
  · rw [if_pos holdest]
    refine ⟨iff_of_false ?_ hahead, iff_of_false ?_ fun h => UInt32.not_lt.mpr holdest h.2.1⟩
    · rintro ⟨s, _, _, h⟩
      exact follow_ne_failed signals _ s ledger health.latest _ h
    · rintro ⟨s, _, _, _, h⟩
      exact follow_ne_failed signals _ s ledger health.latest _ h
  rw [if_neg holdest]
  cases harchive : a.archive with
  | none =>
    refine ⟨iff_of_false ?_ hahead, iff_of_true ⟨sink, _, _, _, rfl⟩ ?_⟩
    · rintro ⟨_, _, _, h⟩
      cases h
    · exact ⟨UInt32.not_lt.mp hahead, UInt32.not_le.mp holdest, rfl⟩
  | some endpoint =>
    refine ⟨iff_of_false ?_ hahead, iff_of_false ?_ (by simp)⟩
    · rintro ⟨s, _, _, h⟩
      exact backfill_ne_failed signals _ s ledger _ _ h
    · rintro ⟨s, _, _, _, h⟩
      exact backfill_ne_failed signals _ s ledger _ _ h

theorem Reaches.exists_last_health (hkind : a.request.kind ≠ .archive)
    (hcheck : a.request.check = .ok ()) {exit : Exit}
    (h : a.Reaches history (.ended sink (.ok exit))) :
    ∃ health, (LedgerFeed.healths history).head? = some health ∧ health.healthy = true := by
  have hne : history ≠ [] := by
    rintro rfl
    have hbegin := h.unique .begin
    rw [begin_waits hkind hcheck] at hbegin
    cases hbegin
  obtain ⟨hasked, hhealthy⟩ := h.healths hkind fun s error => by simp [failed]
  obtain ⟨health, earlier, hhealths⟩ := List.exists_cons_of_ne_nil (hasked hne)
  refine ⟨health, by rw [hhealths]; rfl, hhealthy health ?_⟩
  rw [hhealths]
  exact List.mem_cons_self ..

theorem reaches_first_answer (hkind : a.request.kind ≠ .archive)
    (hcheck : a.request.check = .ok ()) (hstart : a.request.start? = some ledger)
    (signals : Signals) (reply : Except NodeFailure Health) :
    a.Reaches [⟨.liveHealth (.choosing (some ledger)), signals, reply⟩]
      (a.resume signals (.ofCapacity a.config.dedupCapacity .live)
        (.liveHealth (.choosing (some ledger))) reply) := by
  have hbegin := Reaches.begin (a := a)
  rw [begin_waits hkind hcheck, hstart] at hbegin
  exact hbegin.resume signals reply

theorem Reaches.of_aheadOfTip (hkind : a.request.kind ≠ .archive)
    (hstart : a.request.start? = some ledger) {p : Progress} (h : a.Reaches history p)
    (hsame : ∀ h ∈ LedgerFeed.healths history, h = health) (hp : p.AheadOfTip) :
    health.latest < ledger ∨ a.archive.isSome = true ∧
      health.latest < health.oldestAvailable a.config.retentionMargin := by
  obtain ⟨s, first, latest, rfl⟩ := hp
  obtain ⟨hlt, ⟨reported, hmem, rfl⟩, horigin⟩ := h.stands hkind
  obtain rfl := hsame reported hmem
  rcases horigin with hfirst | ⟨harchive, window, hwindow, rfl⟩
  · rw [hstart] at hfirst
    obtain rfl := Option.some.inj hfirst
    exact .inl hlt
  · obtain rfl := hsame window hwindow
    exact .inr ⟨harchive, hlt⟩

theorem Reaches.of_notRetained (hkind : a.request.kind ≠ .archive)
    (hstart : a.request.start? = some ledger) {p : Progress} (h : a.Reaches history p)
    (hsame : ∀ h ∈ LedgerFeed.healths history, h = health) (hp : p.NotRetained) :
    ledger ≤ health.latest ∧ ledger < health.oldestAvailable a.config.retentionMargin ∧
      a.archive = none := by
  obtain ⟨s, first, oldest, latest, rfl⟩ := hp
  obtain ⟨harchive, hfirst, reported, hmem, rfl, rfl, hlt, hle⟩ := h.stands hkind
  obtain rfl := hsame reported hmem
  obtain rfl := hfirst ledger hstart
  exact ⟨hle, hlt, harchive⟩

end Assignment

namespace RunRequest

theorem kind_onwards (request : RunRequest) (ledger : LedgerNumber) :
    (request.onwards ledger).kind = request.kind := by
  cases request <;> rfl

theorem start?_onwards (request : RunRequest) (ledger : LedgerNumber) :
    (request.onwards ledger).start? = some ledger := by
  cases request <;> rfl

theorem check_onwards {request : RunRequest} (h : request.kind ≠ .archive) (ledger : LedgerNumber) :
    (request.onwards ledger).check = .ok () := by
  cases request with
  | archive => exact absurd rfl h
  | live => rfl
  | combined => rfl

end RunRequest

/-- The ledger that a run of the live node reports lies at its start or above, and is its start, at
most one past a reported tip, or at most the beginning of a reported window behind an archive. A new
run from there, where the live node still reports the last health, is refused at once exactly if the
ledger is ahead of the tip, or below the window without an archive; and later only if the window
begins ahead of the tip. -/
theorem refusals_of_resumed_run {e : Engine} {request : RunRequest}
    (hkind : request.kind ≠ .archive) (hcheck : request.check = .ok ())
    {history : List (Moment (e.assign request))} {sink : Sink} {exit : Exit}
    (hended : (e.assign request).Reaches history (.ended sink (.ok exit))) :
    ∃ health, (healths history).head? = some health ∧
      (e.assign request).Standing history exit.resume ∧
      (∀ signals : Signals, signals.stop = false → ∃ p,
        (e.assign (request.onwards exit.resume)).Reaches
          [⟨.liveHealth (.choosing (some exit.resume)), signals, .ok health⟩] p ∧
        (p.AheadOfTip ↔ health.latest < exit.resume) ∧
        (p.NotRetained ↔ exit.resume ≤ health.latest ∧
          exit.resume < health.oldestAvailable e.config.retentionMargin ∧
          (e.assign (request.onwards exit.resume)).archive = none)) ∧
      ∀ later p, (e.assign (request.onwards exit.resume)).Reaches later p →
        (∀ h ∈ healths later, h = health) →
        (p.AheadOfTip → health.latest < exit.resume ∨
          (e.assign (request.onwards exit.resume)).archive.isSome = true ∧
            health.latest < health.oldestAvailable e.config.retentionMargin) ∧
        (p.NotRetained → exit.resume ≤ health.latest ∧
          exit.resume < health.oldestAvailable e.config.retentionMargin ∧
          (e.assign (request.onwards exit.resume)).archive = none) := by
  have hkind' : (request.onwards exit.resume).kind ≠ .archive := by
    rw [RunRequest.kind_onwards]
    exact hkind
  have hcheck' : (request.onwards exit.resume).check = .ok () := RunRequest.check_onwards hkind _
  have hstart : (request.onwards exit.resume).start? = some exit.resume :=
    RunRequest.start?_onwards ..
  obtain ⟨health, hhead, hhealthy⟩ := hended.exists_last_health hkind hcheck
  refine ⟨health, hhead, hended.stands hkind, ?_, ?_⟩
  · intro signals hs
    exact ⟨_, Assignment.reaches_first_answer hkind' hcheck' hstart signals (.ok health),
      Assignment.refused_at_first_iff hs hhealthy _ _⟩
  · intro later p hreaches hsame
    exact ⟨hreaches.of_aheadOfTip hkind' hstart hsame, hreaches.of_notRetained hkind' hstart hsame⟩

def caughtUp : Engine where
  config := { EngineConfig.default with retentionMargin := 0 }
  urls := .ofList []
  decoder := .standard
  live := "live"
  archive := none
  filters := []
  control := .initial

def caughtUpHistory : List (Moment (caughtUp.assign (.live (some 5) none))) :=
  [⟨.pause 5000 (.atTip 6 5), ⟨true, []⟩, ()⟩,
    ⟨.events ⟨5, 5, .ofLedger 5 [] 100⟩, ⟨false, []⟩, .ok ⟨[], 5, none⟩⟩,
    ⟨.liveHealth (.choosing (some 5)), ⟨false, []⟩, .ok ⟨true, 1, 5, 4⟩⟩]

theorem caughtUp_reaches : ∃ sink, (caughtUp.assign (.live (some 5) none)).Reaches caughtUpHistory
    (.ended sink (.ok ⟨.stopped, 6⟩)) :=
  ⟨_, .replayed (caughtUpHistory.reverse.map Moment.answer) rfl⟩

theorem caughtUp_refusals :
    ∃ health, (healths caughtUpHistory).head? = some health ∧ health.latest < 6 ∧
      ∃ p, (caughtUp.assign (.live (some 6) none)).Reaches
          [⟨.liveHealth (.choosing (some 6)), ⟨false, []⟩, .ok health⟩] p ∧
        (p.AheadOfTip ↔ health.latest < 6) := by
  obtain ⟨sink, hended⟩ := caughtUp_reaches
  obtain ⟨health, hhead, -, hfirst, -⟩ :=
    @refusals_of_resumed_run caughtUp (.live (some 5) none) (by decide) rfl _ _ _ hended
  obtain ⟨p, hreaches, hahead, -⟩ := hfirst ⟨false, []⟩ rfl
  obtain rfl := Option.some.inj hhead
  exact ⟨_, hhead, by decide, p, hreaches, hahead⟩

theorem not_always_resumable :
    ¬∀ (e : Engine) (request : RunRequest) (history : List (Moment (e.assign request)))
      (sink : Sink) (exit : Exit) (health : Health), request.kind ≠ .archive →
      request.check = .ok () → (e.assign request).Reaches history (.ended sink (.ok exit)) →
      (healths history).head? = some health →
      ∀ later p, (e.assign (request.onwards exit.resume)).Reaches later p →
        (∀ h ∈ healths later, h = health) → ¬p.AheadOfTip ∧ ¬p.NotRetained := by
  intro h
  obtain ⟨sink, hended⟩ := caughtUp_reaches
  have hhealth := Assignment.Reaches.replayed (a := caughtUp.assign (.live (some 6) none))
    (quietly [.health (.ok ⟨true, 1, 5, 4⟩)]) rfl
  have hsame : ∀ h ∈ healths [Moment.mk (a := caughtUp.assign (.live (some 6) none))
      (.liveHealth (.choosing (some 6))) ⟨false, []⟩ (.ok ⟨true, 1, 5, 4⟩)],
      h = ⟨true, 1, 5, 4⟩ := fun h hmem => List.mem_singleton.mp hmem
  have hresumable := h caughtUp (.live (some 5) none) caughtUpHistory sink _ _ (by decide) rfl
    hended rfl _ _ hhealth hsame
  exact hresumable.1 ⟨_, 6, 5, rfl⟩

end LedgerFeed
