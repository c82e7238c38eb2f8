import LedgerFeed.Proofs.Archive
import LedgerFeed.Rehearsal.Node

/-! Scripted nodes that follow no script are sources and archives in the sense of the runs: their
cursors lead back to where they were given, and their stores are read off without a break. -/

namespace LedgerFeed.Rehearsal.Node

theorem colon_notMem_text (n : Nat) : ':' ∉ (Decimal.text n).toList := by
  rw [Decimal.text, String.toList_ofList]
  intro hmem
  have := Nat.isDigit_of_mem_toDigits (by decide) (by decide) hmem
  exact absurd this (by decide)

theorem position_cursor (r : EventsRequest) (ledger : LedgerNumber) (offset : Nat) :
    position { r with cursor := some s!"{ledger}:{offset}" } = (ledger, offset) := by
  have hsplit : (s!"{ledger}:{offset}").toList.splitOn ':' =
      [(Decimal.text ledger.toNat).toList, (Decimal.text offset).toList] := by
    have htext : (s!"{ledger}:{offset}").toList =
        (Decimal.text ledger.toNat).toList ++ ':' :: (Decimal.text offset).toList := by
      change (Decimal.text ledger.toNat ++ ":" ++ Decimal.text offset).toList = _
      rw [String.toList_append, String.toList_append, List.append_assoc]
      rfl
    rw [htext, List.splitOn_append_cons_self_of_not_mem (colon_notMem_text _),
      List.splitOn_eq_singleton (colon_notMem_text _)]
  simp only [position, Option.map_some, hsplit, Decimal.value?_text, UInt32.ofNat_toNat]

def source (n : Node) : Source where
  listing := n.eventsOf
  place ledger cursor :=
    let (named, offset) := position ⟨none, none, some cursor, [], 0⟩
    if named = ledger then some offset else none

theorem position_of_place {n : Node} {ledger : LedgerNumber} {cursor : String} {place : Nat}
    (h : n.source.place ledger cursor = some place) (r : EventsRequest) :
    position (r.continued cursor) = (ledger, place) := by
  simp only [source, Option.ite_none_right_eq_some, Option.some.injEq] at h
  exact Prod.ext h.1 h.2

theorem ledger_of_mem_eventsOf {n : Node} {ledger : LedgerNumber} {raw : RawEvent}
    (h : raw ∈ n.eventsOf ledger) : raw.ledger = ledger := by
  rcases List.mem_append.mp h with h | h
  · obtain ⟨⟨first, last, count⟩, -, h⟩ := List.mem_flatMap.mp h
    dsimp only at h
    split at h
    · obtain ⟨index, -, rfl⟩ := List.mem_map.mp h
      rfl
    · cases h
  · exact of_decide_eq_true (List.mem_filter.mp h).2

theorem sorted_eventsOf (n : Node) (ledger : LedgerNumber) :
    (n.eventsOf ledger).Pairwise fun e e' => e.ledger ≤ e'.ledger := by
  refine List.pairwise_iff_forall_sublist.mpr fun {e e'} hsub => ?_
  have he : e ∈ n.eventsOf ledger := hsub.subset (by simp)
  have he' : e' ∈ n.eventsOf ledger := hsub.subset (by simp)
  rw [ledger_of_mem_eventsOf he, ledger_of_mem_eventsOf he']
  exact UInt32.le_refl ledger

theorem gives_eventsPage (n : Node) {r : EventsRequest} {ledger : LedgerNumber} {place : Nat}
    (hoverlap : n.overlap < r.limit.toNat) (h : position r = (ledger, place)) :
    n.source.Gives n.overlap ledger place r.limit.toNat (n.eventsPage r) := by
  constructor
  · simp only [eventsPage, h]
    rfl
  · intro hnone
    simp only [eventsPage, h, ite_eq_right_iff, reduceCtorEq, imp_false, List.length_take,
      List.length_drop] at hnone
    change (n.eventsOf ledger).length ≤ _
    omega
  · intro cursor hcursor _
    simp only [eventsPage, h, Option.ite_none_right_eq_some, Option.some.injEq, List.length_take,
      List.length_drop] at hcursor
    obtain ⟨⟨hfull, hmore⟩, rfl⟩ := hcursor
    have hevents : (n.eventsPage r).events.length = r.limit.toNat := by
      simp only [eventsPage, h, List.length_take, List.length_drop]
      exact hfull
    refine ⟨place + r.limit.toNat - n.overlap, ?_, by omega, by omega, by omega⟩
    rw [hfull]
    have hplace := position_cursor ⟨none, none, none, [], 0⟩ ledger
      (place + r.limit.toNat - n.overlap)
    simp only [source]
    rw [hplace]
    simp

def after (n : Node) (asked : Nat) : Node :=
  Nat.repeat nextWindow asked n

theorem after_eq (n : Node) (asked : Nat) :
    n.after asked = { n with windows := n.windows.drop (min asked (n.windows.length - 1)) } := by
  induction asked with
  | zero => simp [after, Nat.repeat]
  | succ asked ih =>
    have hstep : n.after (asked + 1) = (n.after asked).nextWindow := rfl
    rw [hstep, ih]
    rcases Nat.lt_or_ge asked (n.windows.length - 1) with hlt | hge
    · have hnow : asked < n.windows.length := by omega
      have hnext : asked + 1 < n.windows.length := by omega
      rw [Nat.min_eq_left (Nat.le_of_lt hlt), Nat.min_eq_left hlt, List.drop_eq_getElem_cons hnow,
        List.drop_eq_getElem_cons hnext]
      rfl
    · rw [Nat.min_eq_right hge, Nat.min_eq_right (Nat.le_succ_of_le hge)]
      have hlast : (n.windows.drop (n.windows.length - 1)).length ≤ 1 := by
        rw [List.length_drop]
        omega
      unfold nextWindow
      split
      · rename_i hwindows
        dsimp only at hwindows
        rw [hwindows] at hlast
        exact absurd hlast (by simp)
      · rfl

theorem window_after_mem {n : Node} (h : n.windows ≠ []) (asked : Nat) :
    (n.after asked).window ∈ n.windows := by
  have hlt : min asked (n.windows.length - 1) < n.windows.length := by
    have := List.length_pos_iff.mpr h
    omega
  rw [after_eq, window, List.drop_eq_getElem_cons hlt]
  exact List.getElem_mem hlt

theorem gives_eventsPage_after (n : Node) (asked : Nat) {r : EventsRequest} {ledger : LedgerNumber}
    {place : Nat} (hoverlap : n.overlap < r.limit.toNat) (h : position r = (ledger, place)) :
    n.source.Gives n.overlap ledger place r.limit.toNat ((n.after asked).eventsPage r) := by
  rw [after_eq]
  exact gives_eventsPage { n with windows := n.windows.drop (min asked (n.windows.length - 1)) }
    hoverlap h

def world (a : Assignment) (live archive : Node) (filters : List EventFilter) : World a where
  signals _ := ⟨false, filters⟩
  reply history
    | .health .live => .ok (live.after (healthAsked history)).window.health
    | .health .archive => .ok archive.window.health
    | .events request => .ok ((live.after (healthAsked history)).eventsPage request)
    | .ledgers request => .ok (archive.ledgersPage request)
    | .handle _ => .accepted
    | .pause _ => ()

variable {a : Assignment} {live archive : Node} {filters : List EventFilter}
  {start stop : LedgerNumber}

theorem world_undisturbed : (world a live archive filters).Undisturbed filters :=
  ⟨fun _ => rfl, fun _ _ => rfl⟩

theorem world_serves (hs : live.source.Sound a.decoder start stop)
    (hlt : live.overlap < a.config.pageSize.toNat)
    (hle : live.overlap ≤ a.config.dedupCapacity.toNat) :
    (world a live archive filters).Serves live.source filters live.overlap start stop where
  toUndisturbed := world_undisturbed
  toSound := hs
  opens history ledger _ _ := by
    have hplace : position (.ofLedger ledger filters a.config.pageSize) = (ledger, 0) := rfl
    exact ⟨_, rfl, live.gives_eventsPage_after (healthAsked history) hlt hplace⟩
  continues history ledger cursor place _ _ h := by
    have hplace := position_of_place h (.ofLedger ledger filters a.config.pageSize)
    exact ⟨_, rfl, live.gives_eventsPage_after (healthAsked history) hlt hplace⟩
  sorted ledger _ _ := live.sorted_eventsOf ledger
  overlap_lt := hlt
  overlap_le := hle

theorem world_reports (h : ∀ asked, (live.after asked).window.healthy = true) :
    (world a live archive filters).Reports fun asked => (live.after asked).window.health :=
  ⟨h, fun _ => rfl⟩

theorem world_archives {s : Source} (hsize : 0 < a.config.pageSize)
    (hs : archive.ledgers.Pairwise fun l l' => l.sequence < l'.sequence)
    (hall : ∀ n, start ≤ n → n ≤ stop → ∃ ledger ∈ archive.ledgers, ledger.sequence = n)
    (hread : ∀ ledger ∈ archive.ledgers,
      a.decoder.ledgerEvents ledger = .ok (s.events ledger.sequence)) :
    (world a live archive filters).Archives s start stop where
  gives history next target hstart hle hstop := by
    have hall' : ∀ n, next ≤ n → n ≤ target → ∃ ledger ∈ archive.ledgers, ledger.sequence = n :=
      fun n hn hn' => hall n (UInt32.le_trans hstart hn) (UInt32.le_trans hn' hstop)
    obtain ⟨hne, hconsecutive⟩ := @Assignment.batch_of_store a _ next target hsize hle hs hall'
    refine ⟨_, rfl, hne, hconsecutive, fun ledger hledger _ => hread ledger ?_⟩
    exact ((List.take_sublist ..).trans (List.dropWhile_sublist _)).subset hledger

end LedgerFeed.Rehearsal.Node
