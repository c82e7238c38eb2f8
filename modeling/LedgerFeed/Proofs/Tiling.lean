import LedgerFeed.Proofs.Batch
import LedgerFeed.Proofs.Placed

/-! The calls of a run that uses the live node. The live node is asked for its health before each
mode; the backfills that its answers decide follow one another without gap or overlap, and once the
run follows the tip it stays with the live node. -/

namespace LedgerFeed

variable {a : Assignment} {history : List (Moment a)}

/-- A call of a node, with the answer if it was asked for its health. -/
inductive Call where
  | health (role : NodeRole) (answer : Except NodeFailure Health)
  | events (request : EventsRequest)
  | ledgers (request : LedgersRequest)

def Call.Follows : Call → Prop
  | health role _ => role = .live
  | events _ => True
  | ledgers _ => False

def Moment.call? : Moment a → Option Call
  | ⟨.liveHealth _, _, answer⟩ => some (.health .live answer)
  | ⟨.archiveHealth _ _, _, answer⟩ => some (.health .archive answer)
  | ⟨.ledgers next target, _, _⟩ => some (.ledgers (a.batchRequest next target))
  | ⟨.events poll, _, _⟩ => some (.events poll.request)
  | _ => none

def calls (history : List (Moment a)) : List Call :=
  history.reverse.filterMap Moment.call?

theorem calls_cons (m : Moment a) (earlier : List (Moment a)) :
    calls (m :: earlier) = calls earlier ++ m.call?.toList := by
  simp only [calls, List.reverse_cons, List.filterMap_append]
  cases h : m.call? <;> simp [h]

structure Segment where
  health : Health
  first : LedgerNumber
  last : LedgerNumber
  requests : List LedgersRequest

namespace Segment

structure Before (s : Segment) (next : LedgerNumber) : Prop where
  le : s.first ≤ next
  lt : ∀ r ∈ s.requests, r.start < next
  first : s.requests = [] → s.first = next

structure UpTo (s : Segment) (next : LedgerNumber) : Prop where
  le : s.first ≤ next
  ge : ∀ r ∈ s.requests, r.start ≤ next
  asked : s.requests ≠ []

def calls (s : Segment) : List Call :=
  .health .live (.ok s.health) :: s.requests.map .ledgers

def due : Option LedgerNumber → List Segment → Option LedgerNumber
  | start, [] => start
  | _, s :: segments => due (some s.last.following) segments

theorem due_append (start : Option LedgerNumber) (segments segments' : List Segment) :
    due start (segments ++ segments') = due (due start segments) segments' := by
  induction segments generalizing start with
  | nil => rfl
  | cons s segments ih => exact ih _

end Segment

namespace Assignment

/-- A segment from the ledger that is due, or from the tip, up to the window or the end of the
range. -/
structure Fits (a : Assignment) (start : Option LedgerNumber) (s : Segment) : Prop where
  healthy : s.health.healthy = true
  first : s.first = start.getD s.health.latest
  closed : s.first ≤ s.health.latest
  below : s.first < s.health.oldestAvailable a.config.retentionMargin
  last : s.last = a.targetBelow s.health
  le : s.first ≤ s.last
  within : a.pastStop s.last = false
  requests : ∀ r ∈ s.requests, s.first ≤ r.start ∧
    r.start.toNat + r.limit.toNat ≤ s.last.toNat + 1
  rising : s.requests.Pairwise fun r r' => r.start < r'.start
  opening : ∀ r ∈ s.requests.head?, r.start = s.first

def Tiles (a : Assignment) : Option LedgerNumber → List Segment → Prop
  | _, [] => True
  | start, s :: segments => a.Fits start s ∧ a.Tiles (some s.last.following) segments

theorem tiles_append {start : Option LedgerNumber} {segments segments' : List Segment} :
    a.Tiles start (segments ++ segments') ↔
      a.Tiles start segments ∧ a.Tiles (Segment.due start segments) segments' := by
  induction segments generalizing start with
  | nil => simp [Tiles, Segment.due]
  | cons s segments ih => simp only [List.cons_append, Tiles, Segment.due, ih, and_assoc]

theorem Fits.last_lt {start : Option LedgerNumber} {s : Segment} (h : a.Fits start s) :
    s.last < s.health.oldestAvailable a.config.retentionMargin := by
  rw [h.last]
  exact targetBelow_lt h.below

theorem Fits.toNat_following {start : Option LedgerNumber} {s : Segment} (h : a.Fits start s) :
    s.last.following.toNat = s.last.toNat + 1 :=
  LedgerNumber.toNat_following_of_ne (LedgerNumber.ne_last_of_lt h.last_lt)

theorem Tiles.first_lt {ledger : LedgerNumber} {segments : List Segment}
    (h : a.Tiles (some ledger) segments) : ∀ s ∈ segments, ledger ≤ s.first := by
  induction segments generalizing ledger with
  | nil => simp
  | cons s segments ih =>
    have hfirst : s.first = ledger := h.1.first
    intro s' hs'
    rcases List.mem_cons.mp hs' with rfl | hs'
    · exact UInt32.le_of_eq hfirst.symm
    · have hnext := UInt32.le_iff_toNat_le.mp (ih h.2 s' hs')
      have hle := UInt32.le_iff_toNat_le.mp h.1.le
      have hfollowing := h.1.toNat_following
      rw [UInt32.le_iff_toNat_le, ← hfirst]
      omega

theorem Tiles.disjoint {start : Option LedgerNumber} {segments : List Segment}
    (h : a.Tiles start segments) :
    segments.Pairwise fun s s' => s.last < s'.first := by
  induction segments generalizing start with
  | nil => exact .nil
  | cons s segments ih =>
    refine List.pairwise_cons.mpr ⟨fun s' hs' => ?_, ih h.2⟩
    have hnext := UInt32.le_iff_toNat_le.mp (h.2.first_lt s' hs')
    rw [UInt32.lt_iff_toNat_lt]
    exact Nat.lt_of_lt_of_le (Nat.lt_of_lt_of_eq (Nat.lt_succ_self _) h.1.toNat_following.symm)
      hnext

theorem Tiles.length_le {start : Option LedgerNumber} {segments : List Segment} {s : Segment}
    (h : a.Tiles start (s :: segments)) :
    s.first.toNat + (s :: segments).length ≤ UInt32.size ∧
    ∀ stop, a.request.stop? = some stop →
      s.first.toNat + (s :: segments).length ≤ stop.toNat + 1 := by
  induction segments generalizing start s with
  | nil =>
    have hle := UInt32.le_iff_toNat_le.mp h.1.le
    have hsize := s.last.toNat_lt_size
    refine ⟨?_, fun stop hstop => ?_⟩
    · rw [List.length_singleton]
      omega
    · have hlast := UInt32.le_iff_toNat_le.mp (pastStop_eq_false_iff.mp h.1.within stop hstop)
      rw [List.length_singleton]
      omega
  | cons s' segments ih =>
    have hle := UInt32.le_iff_toNat_le.mp h.1.le
    have hfirst : s'.first.toNat = s.last.toNat + 1 := by
      rw [← h.1.toNat_following]
      exact congrArg UInt32.toNat h.2.1.first
    obtain ⟨hsize, hstop⟩ := ih h.2
    rw [List.length_cons]
    refine ⟨by omega, fun stop h => ?_⟩
    have hstop := hstop stop h
    omega

inductive Follows (a : Assignment) (due : Option LedgerNumber) : List Call → Prop
  | mk {health : Health} {filters : List EventFilter} {ledger : LedgerNumber} {calls : List Call}
      (hledger : ledger = due.getD health.latest)
      (hold : health.oldestAvailable a.config.retentionMargin ≤ ledger)
      (hclosed : ledger ≤ health.latest) (hcalls : ∀ call ∈ calls, call.Follows) :
      Follows a due (.health .live (.ok health) ::
        .events (.ofLedger ledger filters a.config.pageSize) :: calls)

/-- The calls of a run behind its segments. The run chose again only within the range; either it
ends with the health that it heard, or before the first poll, or it follows the tip. -/
inductive Closes (a : Assignment) (due : Option LedgerNumber) : List Call → Prop
  | none : Closes a due []
  | answer (h : ∀ ledger, due = some ledger → a.pastStop ledger = false)
      (answer : Except NodeFailure Health) : Closes a due [.health .live answer]
  | follows {calls : List Call} (h : ∀ ledger, due = some ledger → a.pastStop ledger = false)
      (hf : a.Follows due calls) : Closes a due calls

structure Course (a : Assignment) (history : List (Moment a)) (segments : List Segment)
    (tail : List Call) : Prop where
  calls : calls history = segments.flatMap Segment.calls ++ tail
  tiles : a.Tiles a.request.start? segments

structure Done (a : Assignment) (history : List (Moment a)) (segments : List Segment)
    (tail : List Call) : Prop extends a.Course history segments tail where
  asked : ∀ s ∈ segments, s.requests ≠ []

def Deciding (a : Assignment) (history : List (Moment a)) (start : Option LedgerNumber) : Prop :=
  ∃ segments, a.Done history segments [] ∧ Segment.due a.request.start? segments = start

def InSegment (a : Assignment) (history : List (Moment a)) (target : LedgerNumber)
    (asked : Segment → Prop) : Prop :=
  ∃ segments s, a.Course history (segments ++ [s]) [] ∧ (∀ s' ∈ segments, s'.requests ≠ []) ∧
    s.last = target ∧ asked s

def Entering (a : Assignment) (history : List (Moment a)) (ledger latest : LedgerNumber) : Prop :=
  ∃ segments health, a.Done history segments [.health .live (.ok health)] ∧
    (∀ l, Segment.due a.request.start? segments = some l → a.pastStop l = false) ∧
    ledger = (Segment.due a.request.start? segments).getD health.latest ∧
    health.oldestAvailable a.config.retentionMargin ≤ ledger ∧ ledger ≤ health.latest ∧
    latest = health.latest

def Following (a : Assignment) (history : List (Moment a)) : Prop :=
  ∃ segments tail, a.Done history segments tail ∧
    (∀ l, Segment.due a.request.start? segments = some l → a.pastStop l = false) ∧
    a.Follows (Segment.due a.request.start? segments) tail

def Polling (a : Assignment) (history : List (Moment a)) (poll : Poll) : Prop :=
  a.Entering history poll.ledger poll.latest ∧
    (∃ filters, poll.request = .ofLedger poll.ledger filters a.config.pageSize) ∨
  a.Following history

/-- The run may be over. The archive was asked in each segment, unless the run went no further than
the beginning of its last one; and the run is complete behind that one only at the end of the
range. -/
def Concluded (a : Assignment) (history : List (Moment a)) (result : Except IngestError Exit) :
    Prop :=
  ∃ segments tail, a.Course history segments tail ∧
    a.Closes (Segment.due a.request.start? segments) tail ∧
    (∀ s ∈ segments, s.requests = [] → tail = [] ∧ segments.getLast? = some s ∧
      ∀ ledger, result ≠ .ok ⟨.completed, ledger⟩) ∧
    ∀ ledger, result = .ok ⟨.completed, ledger⟩ → tail = [] →
      ∀ s ∈ segments.getLast?, a.request.stop? = some s.last

def TiledIn (a : Assignment) (history : List (Moment a)) : Origin → Prop
  | .page _ _ _ => a.Following history
  | .batch b _ _ => a.InSegment history b.target (·.UpTo b.next)

def TiledAfter (a : Assignment) (history : List (Moment a)) : Wait → Prop
  | .atTip _ _ => a.Following history
  | .betweenPages _ => a.Following history
  | .betweenBatches next target => a.InSegment history target (·.Before next)

def TiledAt (a : Assignment) (history : List (Moment a)) : Pending → Prop
  | .liveHealth (.choosing start) => a.Deciding history start
  | .liveHealth (.following _) => a.Following history
  | .archiveHealth _ _ => False
  | .ledgers next target => a.InSegment history target (·.Before next)
  | .events poll => a.Polling history poll
  | .verdict _ _ origin => a.TiledIn history origin
  | .pause _ wait => a.TiledAfter history wait

def Tiled (a : Assignment) (history : List (Moment a)) : Point → Prop
  | .choosing start => a.Deciding history start
  | .backfilling next target => a.InSegment history target (·.Before next)
  | .backfilled target => a.InSegment history target (·.requests ≠ [])
  | .taking b _ => a.InSegment history b.target (·.UpTo b.next)
  | .taken b => a.InSegment history b.target (·.UpTo b.next)
  | .following ledger latest => a.Entering history ledger latest ∨ a.Following history
  | .requesting poll => a.Polling history poll
  | .offering origin => a.TiledIn history origin
  | .paged _ _ => a.Following history
  | .polled _ _ => a.Following history
  | .resting _ wait => a.TiledAfter history wait
  | .asking pending => a.TiledAt history pending
  | .ended result => a.Concluded history result

section

variable {target next ledger latest first : LedgerNumber} {asked asked' : Segment → Prop}
  {segments : List Segment} {tail : List Call} {result : Except IngestError Exit}

theorem Course.hear (h : a.Course history segments tail) (m : Moment a) :
    a.Course (m :: history) segments (tail ++ m.call?.toList) := by
  refine ⟨?_, h.tiles⟩
  rw [calls_cons, h.calls, List.append_assoc]

theorem Course.quiet (h : a.Course history segments tail) {m : Moment a} (hm : m.call? = none) :
    a.Course (m :: history) segments tail := by
  simpa [hm] using h.hear m

theorem Done.hear (h : a.Done history segments tail) (m : Moment a) :
    a.Done (m :: history) segments (tail ++ m.call?.toList) :=
  ⟨h.toCourse.hear m, h.asked⟩

theorem Done.quiet (h : a.Done history segments tail) {m : Moment a} (hm : m.call? = none) :
    a.Done (m :: history) segments tail :=
  ⟨h.toCourse.quiet hm, h.asked⟩

theorem InSegment.mono (h : a.InSegment history target asked) (hasked : ∀ s, asked s → asked' s) :
    a.InSegment history target asked' := by
  obtain ⟨segments, s, hc, hdone, hlast, hs⟩ := h
  exact ⟨segments, s, hc, hdone, hlast, hasked s hs⟩

theorem InSegment.quiet (h : a.InSegment history target asked) {m : Moment a}
    (hm : m.call? = none) : a.InSegment (m :: history) target asked := by
  obtain ⟨segments, s, hc, hs⟩ := h
  exact ⟨segments, s, hc.quiet hm, hs⟩

theorem InSegment.ask (h : a.InSegment history target (·.Before next)) (hle : next ≤ target)
    (signals : Signals) (reply : Except NodeFailure LedgersPage) :
    a.InSegment (⟨.ledgers next target, signals, reply⟩ :: history) target (·.UpTo next) := by
  obtain ⟨segments, s, hc, hdone, rfl, hbefore⟩ := h
  obtain ⟨htiles, hs, -⟩ := tiles_append.mp hc.tiles
  let request := a.batchRequest next s.last
  refine ⟨segments, { s with requests := s.requests ++ [request] }, ⟨?_, ?_⟩, hdone, rfl,
    hbefore.le, ?_, by simp⟩
  · rw [(hc.hear _).calls]
    simp [Segment.calls, Moment.call?, request]
  · refine tiles_append.mpr ⟨htiles, ?_, trivial⟩
    refine ⟨hs.healthy, hs.first, hs.closed, hs.below, hs.last, hs.le, hs.within, ?_, ?_, ?_⟩
    · intro r hr
      rcases List.mem_append.mp hr with hr | hr
      · exact hs.requests r hr
      · obtain rfl := List.mem_singleton.mp hr
        exact ⟨hbefore.le, limit_batchRequest_le hle⟩
    · refine List.pairwise_append.mpr
        ⟨hs.rising, List.pairwise_singleton .., fun r hr r' hr' => ?_⟩
      obtain rfl := List.mem_singleton.mp hr'
      exact hbefore.lt r hr
    · intro r hr
      cases hrequests : s.requests with
      | nil =>
        rw [hrequests] at hr
        obtain rfl := Option.some.inj hr
        exact (hbefore.first hrequests).symm
      | cons r' rest =>
        rw [hrequests] at hr
        obtain rfl := Option.some.inj hr
        exact hs.opening _ (by rw [hrequests]; rfl)
  · intro r hr
    rcases List.mem_append.mp hr with hr | hr
    · exact UInt32.le_of_lt (hbefore.lt r hr)
    · obtain rfl := List.mem_singleton.mp hr
      exact UInt32.le_refl _

theorem InSegment.finish (h : a.InSegment history target (·.Before next)) (hlt : target < next) :
    a.InSegment history target (·.requests ≠ []) := by
  obtain ⟨segments, s, hc, hdone, rfl, hbefore⟩ := h
  obtain ⟨-, hs, -⟩ := tiles_append.mp hc.tiles
  refine ⟨segments, s, hc, hdone, rfl, fun hnil => ?_⟩
  have hle := UInt32.le_iff_toNat_le.mp hs.le
  have hlt := UInt32.lt_iff_toNat_lt.mp hlt
  rw [hbefore.first hnil] at hle
  omega

theorem Deciding.segment {start : Option LedgerNumber} {health : Health} {signals : Signals}
    (h : a.Deciding history start) (hp : a.PlacedAt (.liveHealth (.choosing start)))
    (ha : a.Admits signals start health first)
    (hlt : first < health.oldestAvailable a.config.retentionMargin) :
    a.InSegment (⟨.liveHealth (.choosing start), signals, .ok health⟩ :: history)
      (a.targetBelow health) (·.Before first) := by
  obtain ⟨segments, ⟨hc, hdone⟩, rfl⟩ := h
  obtain ⟨htargets, hle⟩ := targets_targetBelow hp.1.kind (ha.pastStop hp.2) hlt
  let s : Segment := ⟨health, first, a.targetBelow health, []⟩
  refine ⟨segments, s, ⟨?_, ?_⟩, hdone, rfl, UInt32.le_refl _, by simp [s], fun _ => rfl⟩
  · rw [(hc.hear _).calls]
    simp [Segment.calls, Moment.call?, s]
  · refine tiles_append.mpr ⟨hc.tiles, ⟨ha.healthy, ha.eq, ha.closed, hlt, rfl, hle,
      htargets.within, ?_, .nil, ?_⟩, trivial⟩
    · simp [s]
    · simp [s]

theorem Deciding.enter {start : Option LedgerNumber} {health : Health} {signals : Signals}
    (h : a.Deciding history start) (hp : a.PlacedAt (.liveHealth (.choosing start)))
    (ha : a.Admits signals start health first)
    (hold : health.oldestAvailable a.config.retentionMargin ≤ first) :
    a.Entering (⟨.liveHealth (.choosing start), signals, .ok health⟩ :: history) first
      health.latest := by
  obtain ⟨segments, hc, rfl⟩ := h
  exact ⟨segments, health, hc.hear _, hp.2, ha.eq, hold, ha.closed, rfl⟩

theorem Follows.snoc {due : Option LedgerNumber} {call : Call} (h : a.Follows due tail)
    (hcall : call.Follows) : a.Follows due (tail ++ [call]) := by
  cases h with
  | mk hledger hold hclosed hcalls =>
    refine .mk hledger hold hclosed fun c hc => ?_
    rcases List.mem_append.mp hc with hc | hc
    · exact hcalls c hc
    · exact List.mem_singleton.mp hc ▸ hcall

theorem Following.quiet (h : a.Following history) {m : Moment a} (hm : m.call? = none) :
    a.Following (m :: history) := by
  obtain ⟨segments, tail, hc, h⟩ := h
  exact ⟨segments, tail, hc.quiet hm, h⟩

theorem Following.call (h : a.Following history) {m : Moment a} {call : Call}
    (hm : m.call? = some call) (hcall : call.Follows) : a.Following (m :: history) := by
  obtain ⟨segments, tail, hc, hwithin, hf⟩ := h
  refine ⟨segments, tail ++ [call], ?_, hwithin, hf.snoc hcall⟩
  simpa [hm] using hc.hear m

theorem Following.health (h : a.Following history) (ledger : LedgerNumber) (signals : Signals)
    (reply : Except NodeFailure Health) :
    a.Following (⟨.liveHealth (.following ledger), signals, reply⟩ :: history) := by
  have hcall : (Call.health .live reply).Follows := rfl
  exact h.call rfl hcall

theorem Polling.page {poll : Poll} (h : a.Polling history poll) (signals : Signals)
    (reply : Except NodeFailure EventsPage) :
    a.Following (⟨.events poll, signals, reply⟩ :: history) := by
  rcases h with ⟨⟨segments, health, hc, hwithin, hledger, hold, hclosed, -⟩, filters, hrequest⟩ | h
  · refine ⟨segments, _, hc.hear _, hwithin, ?_⟩
    rw [show (Moment.mk (a := a) (.events poll) signals reply).call? =
      some (.events poll.request) from rfl, hrequest]
    exact .mk hledger hold hclosed (by simp)
  · exact h.call rfl trivial

/-- What is said of segments without requests does not matter where there are none. -/
theorem Done.concluded (h : a.Done history segments tail)
    (hcloses : a.Closes (Segment.due a.request.start? segments) tail) (htail : tail ≠ [])
    (result : Except IngestError Exit) : a.Concluded history result :=
  ⟨segments, tail, h.toCourse, hcloses, fun s hs hnil => absurd hnil (h.asked s hs),
    fun _ _ hnil => absurd hnil htail⟩

theorem Following.concluded (h : a.Following history) (result : Except IngestError Exit) :
    a.Concluded history result := by
  obtain ⟨segments, tail, hd, hwithin, hf⟩ := h
  refine hd.concluded (.follows hwithin hf) ?_ result
  cases hf
  exact List.cons_ne_nil _ _

theorem Entering.concluded (h : a.Entering history ledger latest)
    (result : Except IngestError Exit) : a.Concluded history result := by
  obtain ⟨segments, health, hd, hwithin, -⟩ := h
  exact hd.concluded (.answer hwithin _) (List.cons_ne_nil _ _) result

theorem InSegment.concluded (h : a.InSegment history target asked)
    (hr : ∀ ledger, result ≠ .ok ⟨.completed, ledger⟩) : a.Concluded history result := by
  obtain ⟨segments, s, hc, hdone, -⟩ := h
  refine ⟨segments ++ [s], [], hc, .none, fun s' hs' hnil => ?_,
    fun ledger h => absurd h (hr ledger)⟩
  rcases List.mem_append.mp hs' with hs' | hs'
  · exact absurd hnil (hdone s' hs')
  · obtain rfl := List.mem_singleton.mp hs'
    exact ⟨rfl, by simp, hr⟩

theorem Deciding.concluded {start : Option LedgerNumber} (h : a.Deciding history start)
    (hr : ∀ ledger, result ≠ .ok ⟨.completed, ledger⟩) : a.Concluded history result := by
  obtain ⟨segments, hd, -⟩ := h
  exact ⟨segments, [], hd.toCourse, .none, fun s hs hnil => absurd hnil (hd.asked s hs),
    fun ledger h => absurd h (hr ledger)⟩

theorem Deciding.heard {start : Option LedgerNumber} (h : a.Deciding history start)
    (hp : a.PlacedAt (.liveHealth (.choosing start))) (signals : Signals)
    (reply : Except NodeFailure Health) (result : Except IngestError Exit) :
    a.Concluded (⟨.liveHealth (.choosing start), signals, reply⟩ :: history) result := by
  obtain ⟨segments, hd, hdue⟩ := h
  have hheard := hd.hear ⟨.liveHealth (.choosing start), signals, reply⟩
  subst hdue
  exact hheard.concluded (.answer hp.2 reply) (List.cons_ne_nil _ _) result

variable {signals : Signals} {sink sink' : Sink} {pending : Pending} {point point' : Point}

theorem TiledAfter.quiet {wait : Wait} (h : a.TiledAfter history wait) {m : Moment a}
    (hm : m.call? = none) : a.TiledAfter (m :: history) wait := by
  cases wait with
  | atTip | betweenPages => exact Following.quiet h hm
  | betweenBatches => exact InSegment.quiet h hm

theorem TiledIn.quiet {origin : Origin} (h : a.TiledIn history origin) {m : Moment a}
    (hm : m.call? = none) : a.TiledIn (m :: history) origin := by
  cases origin with
  | page => exact Following.quiet h hm
  | batch => exact InSegment.quiet h hm

theorem TiledIn.concluded {origin : Origin} (h : a.TiledIn history origin)
    (hr : ∀ ledger, result ≠ .ok ⟨.completed, ledger⟩) : a.Concluded history result := by
  cases origin with
  | page => exact Following.concluded h result
  | batch => exact InSegment.concluded h hr

theorem TiledAt.heard {error : IngestError} (h : a.TiledAt history pending)
    (hp : a.PlacedAt pending) (signals : Signals) (reply : (pending.question a).Reply) :
    a.Concluded (⟨pending, signals, reply⟩ :: history) (.error error) := by
  cases pending with
  | liveHealth use =>
    cases use with
    | choosing => exact Deciding.heard h hp signals reply _
    | following ledger => exact (Following.health h ledger signals reply).concluded _
  | archiveHealth => exact h.elim
  | ledgers => exact (InSegment.ask h hp.2 signals reply).concluded (by simp)
  | events => exact (Polling.page h signals reply).concluded _
  | verdict => exact (TiledIn.quiet h rfl).concluded (by simp)
  | pause milliseconds wait =>
    cases wait with
    | atTip | betweenPages => exact (Following.quiet h rfl).concluded _
    | betweenBatches => exact (InSegment.quiet h rfl).concluded (by simp)

theorem Hears.tiled {reply : (pending.question a).Reply}
    (h : a.Hears signals sink pending reply sink' point) (hp : a.PlacedAt pending)
    (ht : a.TiledAt history pending) :
    a.Tiled (⟨pending, signals, reply⟩ :: history) point := by
  cases h with
  | failed => exact ht.heard hp signals _
  | tipPast | stopped | ahead | refused => exact Deciding.heard ht hp signals _ _
  | within ha hold => exact .inl (Deciding.enter ht hp ha hold)
  | below ha hlt => exact Deciding.segment ht hp ha hlt
  | @unclosed ledger => exact Following.health ht ledger signals _
  | @closed ledger => exact .inr (Following.health ht ledger signals _)
  | archiveAhead | archiveReady => exact ht.elim
  | ledgers => exact InSegment.ask ht hp.2 signals _
  | events => exact Polling.page ht signals _
  | @accepted raw event origin => exact TiledIn.quiet ht rfl
  | rested => exact TiledAfter.quiet ht rfl

theorem Tiled.stopped {point : Point} (h : a.Tiled history point)
    (hp : ∀ result, point ≠ .ended result) (ledger : LedgerNumber) :
    a.Concluded history (.ok ⟨.stopped, ledger⟩) := by
  have hafter {wait : Wait} (h : a.TiledAfter history wait) :
      a.Concluded history (.ok ⟨.stopped, ledger⟩) := by
    cases wait with
    | atTip | betweenPages => exact Following.concluded h _
    | betweenBatches => exact InSegment.concluded h (by simp)
  have hpolling {poll : Poll} (h : a.Polling history poll) :
      a.Concluded history (.ok ⟨.stopped, ledger⟩) :=
    h.elim (·.1.concluded _) (·.concluded _)
  cases point with
  | choosing => exact Deciding.concluded h (by simp)
  | backfilling | backfilled | taking | taken => exact InSegment.concluded h (by simp)
  | following => exact h.elim (·.concluded _) (·.concluded _)
  | requesting => exact hpolling h
  | offering => exact TiledIn.concluded h (by simp)
  | paged | polled => exact Following.concluded h _
  | resting => exact hafter h
  | asking pending =>
    cases pending with
    | liveHealth use =>
      cases use with
      | choosing => exact Deciding.concluded h (by simp)
      | following => exact Following.concluded h _
    | archiveHealth => exact h.elim
    | ledgers => exact InSegment.concluded h (by simp)
    | events => exact hpolling h
    | verdict => exact TiledIn.concluded h (by simp)
    | pause => exact hafter h
  | ended result => exact absurd rfl (hp result)

theorem Deciding.completed (h : a.Deciding history (some ledger))
    (hpast : a.pastStop ledger = true) :
    a.Concluded history (.ok ⟨.completed, ledger⟩) := by
  obtain ⟨segments, hd, hdue⟩ := h
  refine ⟨segments, [], hd.toCourse, .none, fun s hs hnil => absurd hnil (hd.asked s hs),
    fun _ _ _ s hs => ?_⟩
  obtain ⟨before, rfl⟩ := List.getLast?_eq_some_iff.mp hs
  obtain ⟨-, hfits, -⟩ := tiles_append.mp hd.tiles
  obtain ⟨stop, hstop, hlt⟩ := pastStop_eq_true_iff.mp hpast
  have hle := pastStop_eq_false_iff.mp hfits.within stop hstop
  have hnext := hfits.toNat_following
  rw [Segment.due_append] at hdue
  obtain rfl : s.last.following = ledger := Option.some.inj hdue
  have heq : stop = s.last := by
    refine UInt32.le_antisymm (UInt32.le_iff_toNat_le.mpr ?_) hle
    have := UInt32.lt_iff_toNat_lt.mp hlt
    omega
  rw [hstop, heq]

theorem Moves.tiled (hkind : a.request.kind ≠ .archive)
    (h : a.Moves signals sink point sink' point') (hp : a.Placed point)
    (ht : a.Tiled history point) :
    a.Tiled history point' := by
  cases h with
  | @stop point ledger hs h =>
    refine ht.stopped (fun result hpoint => ?_) ledger
    subst hpoint
    cases h
  | choosePast h => exact Deciding.completed ht h
  | askHealth => exact ht
  | reachTarget h => exact InSegment.finish ht h
  | askBatch => exact ht
  | endArchive h => exact absurd h hkind
  | chooseAgain =>
    -- the segment is at its end, so it joins those before it
    obtain ⟨segments, s, hc, hdone, rfl, hasked⟩ := ht
    refine ⟨segments ++ [s], ⟨hc, fun s' hs' => ?_⟩, by rw [Segment.due_append]; rfl⟩
    rcases List.mem_append.mp hs' with hs' | hs'
    · exact hdone s' hs'
    · exact List.mem_singleton.mp hs' ▸ hasked
  | skipLedger => exact ht
  | endLedgers => exact ht
  | gap => exact InSegment.concluded ht (by simp)
  | unreadable => exact InSegment.concluded ht (by simp)
  | read => exact ht
  | @duplicate origin => cases origin <;> exact ht
  | @filtered origin => cases origin <;> exact ht
  | undecodable => exact TiledIn.concluded ht (by simp)
  | @askHandler origin => cases origin <;> exact ht
  | endPage => exact ht
  | endLedger => exact ht
  | endAtLast => exact InSegment.mono ht fun _ hs => hs.asked
  | noProgress => exact InSegment.concluded ht (by simp)
  | endBatches => exact InSegment.mono ht fun _ hs => hs.asked
  | nextBatch hne hle =>
    refine InSegment.mono ht fun s hs => ?_
    have hlt := UInt32.lt_of_le_of_ne hp.ge (Ne.symm hne)
    exact ⟨UInt32.le_trans hs.le hp.ge, fun r hr => UInt32.lt_of_le_of_lt (hs.ge r hr) hlt,
      fun hnil => absurd hnil hs.asked⟩
  | followPast h =>
    rw [hp.within] at h
    cases h
  | askTip hpast hs h =>
    rcases ht with ⟨segments, health, -, -, -, -, hle, rfl⟩ | ht
    · -- the tip that the live segment was chosen by is not below its first ledger
      exact absurd h (UInt32.not_lt.mpr hle)
    · exact ht
  | beginPoll => exact ht.imp (fun h => ⟨h, _, rfl⟩) id
  | askPage => exact ht
  | hitStop => exact Following.concluded ht _
  | drained => exact ht
  | nextPage => exact ht
  | endPolls => exact Following.concluded ht _
  | restAtTip => exact ht
  | followOn => exact .inr ht
  | @proceed wait =>
    cases wait with
    | atTip => exact .inr ht
    | betweenPages => exact .inr ht
    | betweenBatches => exact ht
  | pause => exact ht

theorem begin_tiled (hkind : a.request.kind ≠ .archive) : a.Tiled [] a.begin.point := by
  have hdone : a.Done [] [] [] := ⟨⟨rfl, trivial⟩, by simp⟩
  rcases begin_cases a with ⟨start, stop, hrequest, -⟩ | ⟨-, ⟨-, hbegin⟩ | ⟨ledger, -, -, hbegin⟩⟩
  · exact absurd (hrequest ▸ rfl) hkind
  · rw [hbegin]
    exact ⟨[], hdone, rfl⟩
  · rw [hbegin]
    exact ⟨[], [], hdone.toCourse, .none, by simp, fun _ _ _ s hs => by simp at hs⟩

theorem Reaches.tiled (hkind : a.request.kind ≠ .archive) {p : Progress}
    (h : a.Reaches history p) : a.Tiled history p.point :=
  (h.carries (I := fun history _ point => a.Tiled history point) (begin_tiled hkind)
    (fun _ hp _ ht h => h.tiled hp ht) (fun hp _ ht h => h.tiled hkind hp ht)).2

end

end Assignment

/-- The calls of a run that uses the live node are those of its segments and those behind them.
Each segment was decided by a health of its own, and leads from the ledger due next up to the window
or to the end of the range; so they follow one another without gap or overlap, and there are no more
of them than ledgers in the range. Behind them the run follows the tip, from the ledger due next on,
which its last health lets it poll. -/
theorem segments_tile (hkind : a.request.kind ≠ .archive) {p : Progress}
    (h : a.Reaches history p) :
    ∃ segments tail, calls history = segments.flatMap Segment.calls ++ tail ∧
      a.Tiles a.request.start? segments ∧
      a.Closes (Segment.due a.request.start? segments) tail ∧
      (segments.Pairwise fun s s' => s.last < s'.first) ∧
      (∀ s ∈ segments.head?, s.first.toNat + segments.length ≤ UInt32.size ∧
        ∀ stop, a.request.stop? = some stop → s.first.toNat + segments.length ≤ stop.toNat + 1) ∧
      (∀ s ∈ segments, s.requests = [] → tail = [] ∧ segments.getLast? = some s ∧
        ∀ sink ledger, p ≠ Assignment.completed sink ledger) ∧
      ∀ sink ledger, p = Assignment.completed sink ledger → tail = [] →
        ∀ s ∈ segments.getLast?, a.request.stop? = some s.last := by
  have htiled := h.tiled hkind
  have hlength {segments : List Segment} (ht : a.Tiles a.request.start? segments) :
      ∀ s ∈ segments.head?, s.first.toNat + segments.length ≤ UInt32.size ∧
        ∀ stop, a.request.stop? = some stop →
          s.first.toNat + segments.length ≤ stop.toNat + 1 := by
    intro s hs
    cases segments with
    | nil => cases hs
    | cons s' segments =>
      obtain rfl := Option.some.inj hs
      exact ht.length_le
  cases p with
  | ended sink result =>
    obtain ⟨segments, tail, hc, hcloses, hasked, hlast⟩ : a.Concluded history result := htiled
    refine ⟨segments, tail, hc.calls, hc.tiles, hcloses, hc.tiles.disjoint, hlength hc.tiles,
      ?_, ?_⟩
    · intro s hs hnil
      obtain ⟨htail, hs, hne⟩ := hasked s hs hnil
      exact ⟨htail, hs, fun _ ledger h => hne ledger (Progress.ended.inj h).2⟩
    · intro _ ledger h
      exact hlast ledger (Progress.ended.inj h).2
  | waiting sink pending =>
    obtain ⟨segments, tail, hc, hcloses, hasked, -⟩ :=
      htiled.stopped (fun _ h => by cases h) 0
    refine ⟨segments, tail, hc.calls, hc.tiles, hcloses, hc.tiles.disjoint, hlength hc.tiles,
      ?_, ?_⟩
    · intro s hs hnil
      obtain ⟨htail, hs, -⟩ := hasked s hs hnil
      exact ⟨htail, hs, fun _ _ h => by cases h⟩
    · intro _ _ h
      cases h

def bridging (margin : UInt32) : Assignment where
  request := .combined (some 3) none
  config := { EngineConfig.default with retentionMargin := margin }
  decoder := .standard
  live := "live"
  archive := some "archive"

def emptyLedgers (first tip : LedgerNumber) : List RawLedger :=
  (List.range' first.toNat (tip.toNat + 1 - first.toNat)).map fun n =>
    ⟨UInt32.ofNat n, "", "", "", []⟩

def bridgedHistory : List (Moment (bridging 2)) :=
  [⟨.events ⟨6, 8, .ofLedger 6 [] 100⟩, ⟨false, []⟩, .ok ⟨[], 8, none⟩⟩,
    ⟨.liveHealth (.choosing (some 6)), ⟨false, []⟩, .ok ⟨true, 4, 8, 4⟩⟩,
    ⟨.ledgers 3 5, ⟨false, []⟩, .ok ⟨emptyLedgers 3 5, 8, 3⟩⟩,
    ⟨.liveHealth (.choosing (some 3)), ⟨false, []⟩, .ok ⟨true, 4, 8, 4⟩⟩]

theorem bridged_reaches : ∃ sink, (bridging 2).Reaches bridgedHistory
    (.waiting sink (.events ⟨7, 8, .ofLedger 7 [] 100⟩)) :=
  ⟨_, .replayed (bridgedHistory.reverse.map Moment.answer) rfl⟩

theorem bridged_segments_tile :
    (bridging 2).request.kind ≠ .archive ∧
    ∃ segments tail, calls bridgedHistory = segments.flatMap Segment.calls ++ tail ∧
      (bridging 2).Tiles (some 3) segments ∧
      (bridging 2).Closes (Segment.due (some 3) segments) tail := by
  obtain ⟨sink, h⟩ := bridged_reaches
  have hkind : (bridging 2).request.kind ≠ .archive := by decide
  obtain ⟨segments, tail, hcalls, htiles, hcloses, -⟩ := segments_tile hkind h
  exact ⟨hkind, segments, tail, hcalls, htiles, hcloses⟩

end LedgerFeed
