import Mathlib.Data.List.Perm.Subperm
import LedgerFeed.Proofs.Live
import LedgerFeed.Proofs.Passing

/-! The cursors of a poll. A poll asks with the cursors that its pages give, one after the other,
and compares them with nothing: only the node can keep it from asking with one again. -/

namespace LedgerFeed

def Poll.onward? (poll : Poll) (page : EventsPage) : Option String :=
  if page.runsPast poll.ledger then none else page.nextCursor?

section

variable {a : Assignment}

/-- The cursors that the latest poll has asked with, latest first. A poll begins with a request
without cursor. -/
def cursorsAsked : List (Moment a) → List String
  | [] => []
  | ⟨.events poll, _, _⟩ :: before =>
    match poll.request.cursor with
    | none => []
    | some cursor => cursor :: cursorsAsked before
  | _ :: before => cursorsAsked before

def cursorsOf (before : List (Moment a)) (poll : Poll) : List String :=
  match poll.request.cursor with
  | none => []
  | some cursor => cursor :: cursorsAsked before

def Moment.onward? : Moment a → Option String
  | ⟨.events poll, _, .ok page⟩ => poll.onward? page
  | _ => none

def cursorsGiven : List (Moment a) → List String
  | [] => []
  | m :: before =>
    match m.pending with
    | .events poll =>
      m.onward?.toList ++ if poll.request.cursor = none then [] else cursorsGiven before
    | _ => cursorsGiven before

end

variable {a : Assignment} {signals : Signals} {sink sink' : Sink} {point point' : Point}
  {pending : Pending} {history : List (Moment a)} {poll : Poll} {page : EventsPage}

namespace Assignment

def Heeds (history : List (Moment a)) (poll : Poll) : Prop :=
  poll.request.cursor ≠ none → cursorsOf history poll = cursorsGiven history

def Turns (history : List (Moment a)) (poll : Poll) (page : EventsPage) : Prop :=
  cursorsGiven history = (poll.onward? page).toList ++ cursorsAsked history

def Tracking (history : List (Moment a)) : Point → Prop
  | .requesting poll | .asking (.events poll) | .resting _ (.betweenPages poll)
  | .asking (.pause _ (.betweenPages poll)) => Heeds history poll
  | .offering (.page poll page _) | .paged poll page
  | .asking (.verdict _ _ (.page poll page _)) => Turns history poll page
  | _ => True

theorem Heeds.turns (h : Heeds history poll) :
    Turns (a := a) (⟨.events poll, signals, .ok page⟩ :: history) poll page := by
  cases hc : poll.request.cursor with
  | none => simp [Turns, cursorsGiven, Moment.onward?, cursorsAsked, hc]
  | some cursor =>
    have hheeds := h (by simp [hc])
    change _ = (poll.onward? page).toList ++ cursorsOf history poll
    rw [hheeds]
    simp [cursorsGiven, Moment.onward?, hc]

theorem Turns.heeds (h : Turns history poll page) {cursor : String}
    (hcursor : poll.onward? page = some cursor) :
    Heeds history { poll with request := poll.request.continued cursor } := by
  intro _
  rw [h, hcursor]
  rfl

theorem heeds_ofLedger {ledger latest : LedgerNumber} {filters : List EventFilter}
    {limit : UInt32} : Heeds history ⟨ledger, latest, .ofLedger ledger filters limit⟩ :=
  fun h => absurd rfl h

theorem Hears.tracking {reply : (pending.question a).Reply}
    (h : a.Hears signals sink pending reply sink' point)
    (hf : Tracking history (.asking pending)) :
    Tracking (⟨pending, signals, reply⟩ :: history) point := by
  cases h with
  | events => exact hf.turns
  | closed => exact heeds_ofLedger
  | @accepted raw event origin =>
    cases origin with
    | page => exact hf
    | batch => trivial
  | @rested milliseconds wait =>
    cases wait with
    | betweenPages => exact hf
    | atTip | betweenBatches => trivial
  | _ => trivial

theorem Moves.tracking (h : a.Moves signals sink point sink' point')
    (hf : Tracking history point) : Tracking history point' := by
  cases h with
  | @duplicate origin | @filtered origin | @askHandler origin => cases origin <;> exact hf
  | beginPoll => exact heeds_ofLedger
  | @nextPage poll page cursor h hc =>
    have honward : poll.onward? page = some cursor := (if_neg (by simp [h])).trans hc
    exact hf.heeds honward
  | @proceed wait => cases wait <;> exact hf
  | @pause milliseconds wait => cases wait <;> exact hf
  | endPage | askPage => exact hf
  | _ => trivial

theorem begin_tracking (a : Assignment) : Tracking ([] : List (Moment a)) a.begin.point := by
  rcases begin_cases a with ⟨_, _, -, hbegin⟩ | ⟨-, ⟨-, hbegin⟩ | ⟨_, -, -, hbegin⟩⟩
  all_goals exact hbegin ▸ trivial

/-- A poll asks with just the cursors that its pages gave it, in their order. -/
theorem Reaches.heeds (h : a.Reaches history (.waiting sink (.events poll))) :
    Heeds history poll :=
  h.invariant (I := fun history _ point => Tracking history point) (begin_tracking a)
    (fun _ hf h => h.tracking hf) fun hf h => h.tracking hf

end Assignment

/-! Pages that a poll does not get past. -/

/-- A page that shows a poll nothing new, and gives it a cursor. -/
structure EventsPage.Detains (page : EventsPage) (ledger : LedgerNumber) (recent : RecentIds)
    (cursor : String) : Prop where
  cursor : page.nextCursor? = some cursor
  within : page.runsPast ledger = false
  seen : ∀ raw ∈ page.ofLedger ledger, recent.contains raw.id = true

structure Sink.Idles (s s' : Sink) : Prop where
  recent : s'.recent = s.recent
  delivered : s'.delivered = s.delivered

theorem Sink.Idles.trans {s s' s'' : Sink} (h : s.Idles s') (h' : s'.Idles s'') : s.Idles s'' :=
  ⟨h'.recent.trans h.recent, h'.delivered.trans h.delivered⟩

theorem Sink.offerAll_of_seen (decoder : Decoder) (filters : List EventFilter) {s : Sink}
    {raws : List RawEvent} (h : ∀ raw ∈ raws, s.recent.contains raw.id = true) :
    ∃ s', offerAll decoder filters false s raws = .through s' ∧ s.Idles s' := by
  induction raws generalizing s with
  | nil => exact ⟨s, rfl, rfl, rfl⟩
  | cons raw rest ih =>
    have hj : s.judge decoder filters raw = .duplicate :=
      judge_eq_duplicate_iff.mpr (h raw (List.mem_cons_self ..))
    obtain ⟨s', hs', hidles⟩ := ih (s := (s.note raw .duplicate).skipDuplicate)
      fun r hr => h r (List.mem_cons_of_mem _ hr)
    refine ⟨s', ?_, hidles.recent, hidles.delivered⟩
    simp only [offerAll, hj, Bool.false_eq_true, if_false]
    exact hs'

namespace Assignment

theorem Reaches.turn (h : a.Reaches history (.waiting sink (.events poll))) {cursor : String}
    (hd : page.Detains poll.ledger sink.recent cursor) :
    ∃ later sink', a.Reaches (later ++ history)
        (.waiting sink' (.events { poll with request := poll.request.continued cursor })) ∧
      sink.Idles sink' ∧ cursorsAsked (later ++ history) = cursorsOf history poll := by
  let next : Poll := { poll with request := poll.request.continued cursor }
  obtain ⟨s', hoffered, hidles⟩ := Sink.offerAll_of_seen a.decoder poll.request.filters
    (s := sink.measure (.page .live)) hd.seen
  have hpage := h.resume ⟨false, []⟩ (.ok page)
  have hresume : a.resume ⟨false, []⟩ sink (.events poll) (.ok page) =
      a.wait ⟨false, []⟩ s' a.config.pagingWait (.betweenPages next) := by
    change a.offerPage _ (sink.measure (.page .live)) poll page (page.ofLedger poll.ledger) = _
    simp [offerPage, offerThen, hoffered, Assignment.endPage, hd.within, hd.cursor, next]
  rw [hresume] at hpage
  by_cases hzero : a.config.pagingWait = 0
  · have hnext : a.wait ⟨false, []⟩ s' a.config.pagingWait (.betweenPages next) =
        .waiting s' (.events next) := by
      simp [Assignment.wait, hzero, proceed, requestPage]
    exact ⟨[_], s', hnext ▸ hpage, ⟨hidles.recent, hidles.delivered⟩, rfl⟩
  · have hpause : a.wait ⟨false, []⟩ s' a.config.pagingWait (.betweenPages next) =
        .waiting s' (.pause a.config.pagingWait (.betweenPages next)) := by
      simp [Assignment.wait, hzero]
    have hrested := (hpause ▸ hpage).resume ⟨false, []⟩ ()
    exact ⟨[_, _], s', hrested, ⟨hidles.recent, hidles.delivered⟩, rfl⟩

/-- A poll follows all the cursors that it is given while it is shown nothing new. -/
theorem Reaches.detained {ledger : LedgerNumber} {recent : RecentIds} {pages : List EventsPage}
    {cursors : List String} (h : a.Reaches history (.waiting sink (.events poll)))
    (hledger : poll.ledger = ledger) (hrecent : sink.recent = recent)
    (hd : List.Forall₂ (fun page cursor => page.Detains ledger recent cursor) pages cursors) :
    ∃ later sink' poll', a.Reaches (later ++ history) (.waiting sink' (.events poll')) ∧
      sink.Idles sink' ∧
      cursorsOf (later ++ history) poll' = cursors.reverse ++ cursorsOf history poll := by
  induction hd generalizing history sink poll with
  | nil => exact ⟨[], sink, poll, h, ⟨rfl, rfl⟩, rfl⟩
  | @cons page cursor pages cursors hpage _ ih =>
    subst hledger hrecent
    obtain ⟨later, sink', hturn, hidles, hasked⟩ := h.turn hpage
    obtain ⟨latest, sink'', poll'', hreaches, hidles', hcursors⟩ := ih hturn rfl hidles.recent
    refine ⟨latest ++ later, sink'', poll'', ?_, hidles.trans hidles', ?_⟩
    · rwa [List.append_assoc]
    · rw [List.append_assoc, hcursors, List.reverse_cons, List.append_assoc, ← hasked]
      rfl

end Assignment

/-- A poll asks with just the cursors that its pages gave it. So it asks with none of them twice as
long as it is given none twice, and only as often as there are different ones. But whatever pages
without news it is shown, and whatever cursors they give, it asks with all these cursors, again and
again. -/
theorem poll_follows_cursors (h : a.Reaches history (.waiting sink (.events poll))) :
    (poll.request.cursor ≠ none → cursorsOf history poll = cursorsGiven history) ∧
    ((cursorsGiven history).Nodup → (cursorsOf history poll).Nodup ∧
      ∀ cursors, cursorsGiven history ⊆ cursors →
        (cursorsOf history poll).length ≤ cursors.length) ∧
    ∀ (pages : List EventsPage) (cursors : List String),
      List.Forall₂ (fun page cursor => page.Detains poll.ledger sink.recent cursor) pages cursors →
      ∃ later sink' poll', a.Reaches (later ++ history) (.waiting sink' (.events poll')) ∧
        sink.Idles sink' ∧
        cursorsOf (later ++ history) poll' = cursors.reverse ++ cursorsOf history poll := by
  refine ⟨h.heeds, fun hnodup => ?_, fun pages cursors hd =>
    h.detained rfl rfl hd⟩
  by_cases hfirst : poll.request.cursor = none
  · have hnone : cursorsOf history poll = [] := by rw [cursorsOf, hfirst]
    exact ⟨hnone ▸ List.nodup_nil, fun cursors _ => by simp [hnone]⟩
  · rw [h.heeds hfirst]
    exact ⟨hnodup, fun cursors hsub => (hnodup.subperm hsub).length_le⟩

def pagedRun : Assignment where
  request := .live (some 5) (some 5)
  config := { EngineConfig.default with retentionMargin := 0, pageSize := 1 }
  decoder := .standard
  live := "live"
  archive := none

def stuckPage : EventsPage :=
  ⟨[sampleEvent 5 "a"], 5, some "5:0"⟩

def stuckPoll : Poll :=
  ⟨5, 5, (EventsRequest.ofLedger 5 [] 1).continued "5:0"⟩

theorem pagedRun_reaches : ∃ (history : List (Moment pagedRun)) (sink : Sink),
    pagedRun.Reaches history (.waiting sink (.events stuckPoll)) ∧ sink.delivered = 1 ∧
      stuckPage.Detains stuckPoll.ledger sink.recent "5:0" ∧
      cursorsOf history stuckPoll = ["5:0"] ∧ cursorsGiven history = ["5:0"] := by
  have hpause := Assignment.Reaches.replayed (a := pagedRun) (quietly
    [.health (.ok ⟨true, 1, 5, 4⟩), .events (.ok stuckPage), .verdict .accepted, .pause]) rfl
  exact ⟨_, _, hpause, rfl, ⟨rfl, rfl, by decide⟩, rfl, rfl⟩

theorem detains_replicate {ledger : LedgerNumber} {recent : RecentIds} {cursor : String}
    (h : page.Detains ledger recent cursor) (n : Nat) :
    List.Forall₂ (fun page cursor => page.Detains ledger recent cursor)
      (List.replicate n page) (List.replicate n cursor) := by
  induction n with
  | zero => exact .nil
  | succ n ih => exact .cons h ih

theorem paged_poll_follows :
    ∃ (history later : List (Moment pagedRun)) (sink sink' : Sink) (poll' : Poll),
      pagedRun.Reaches history (.waiting sink (.events stuckPoll)) ∧
      cursorsOf history stuckPoll = cursorsGiven history ∧
      (cursorsGiven history).Nodup ∧ cursorsGiven history ⊆ ["5:0"] ∧
      (cursorsOf history stuckPoll).length ≤ 1 ∧
      pagedRun.Reaches (later ++ history) (.waiting sink' (.events poll')) ∧
      sink'.delivered = 1 ∧
      cursorsOf (later ++ history) poll' = ["5:0", "5:0", "5:0", "5:0"] := by
  obtain ⟨history, sink, hreaches, hdelivered, hdetains, hasked, hgiven⟩ := pagedRun_reaches
  obtain ⟨hheeds, honce, htrapped⟩ := poll_follows_cursors hreaches
  have hnodup : (cursorsGiven history).Nodup := by simp [hgiven]
  have hsub : cursorsGiven history ⊆ ["5:0"] := by rw [hgiven]; exact List.Subset.refl _
  obtain ⟨later, sink', poll', hlater, hidles, hcursors⟩ :=
    htrapped _ _ (detains_replicate hdetains 3)
  refine ⟨history, later, sink, sink', poll', hreaches, hheeds (Option.some_ne_none "5:0"),
    hnodup, hsub, (honce hnodup).2 _ hsub, hlater, hidles.delivered.trans hdelivered, ?_⟩
  rw [hcursors, hasked]
  rfl

/-- A poll asks with one cursor again and again, and does not even take notice of an event. -/
theorem poll_trapped_by_cursor :
    (¬∀ (a : Assignment) (history : List (Moment a)) (sink : Sink) (poll : Poll),
      a.Reaches history (.waiting sink (.events poll)) → (cursorsOf history poll).Nodup) ∧
    ∀ n, ∃ (history : List (Moment pagedRun)) (sink : Sink) (poll : Poll),
      pagedRun.Reaches history (.waiting sink (.events poll)) ∧
      cursorsOf history poll = List.replicate (n + 1) "5:0" ∧ sink.delivered = 1 := by
  obtain ⟨history, sink, hreaches, hdelivered, hdetains, hasked, -⟩ := pagedRun_reaches
  have hagain : ∀ n, ∃ (history : List (Moment pagedRun)) (sink : Sink) (poll : Poll),
      pagedRun.Reaches history (.waiting sink (.events poll)) ∧
      cursorsOf history poll = List.replicate (n + 1) "5:0" ∧ sink.delivered = 1 := by
    intro n
    obtain ⟨later, sink', poll', hlater, hidles, hcursors⟩ :=
      hreaches.detained rfl rfl (detains_replicate hdetains n)
    refine ⟨later ++ history, sink', poll', hlater, ?_, hidles.delivered.trans hdelivered⟩
    rw [hcursors, hasked, List.reverse_replicate, ← List.replicate_succ']
  refine ⟨fun hclaim => ?_, hagain⟩
  obtain ⟨history, sink, poll, htwice, hcursors, -⟩ := hagain 1
  have hnodup := hclaim pagedRun history sink poll htwice
  simp [hcursors] at hnodup

end LedgerFeed
