import LedgerFeed.Proofs.Entrance

/-! Stop requests that take their time. A request looks whether a run is under way, and raises the
flag if it saw one; in between anything may happen at the entrance. A request that raises the flag
only after a later run has cleared it is honoured by that run, which it has never seen. -/

namespace LedgerFeed

inductive Request where
  | unmade
  | aimed (run : Nat)
  | raised (run : Nat)
  | dropped
  deriving DecidableEq

def Request.run? : Request → Option Nat
  | aimed run | raised run => some run
  | unmade | dropped => none

inductive Move (Caller Asker : Type) where
  | access (a : Access Caller)
  | look (k : Asker)
  | raise (k : Asker)

/-- An entrance, with the stop requests that are made meanwhile. Runs are numbered as they come
in. -/
structure Traffic (Caller Asker : Type) where
  entrance : Entrance Caller
  runs : Nat
  request : Asker → Request
  /-- Who has raised the flag since it was cleared last. -/
  raisers : List Asker

namespace Entrance

variable {Caller : Type} [DecidableEq Caller] {s s' : Entrance Caller}

def lowered (s : Entrance Caller) : Entrance Caller :=
  { s with control := s.control.clearStop }

theorem access?_lowered {a : Access Caller} (h : s.access? a = some s') (hstop : a ≠ .stop) :
    s.lowered.access? a = some s'.lowered := by
  cases a with
  | enter c =>
    simp only [access?] at h ⊢
    split at h
    case isTrue hc =>
      refine (if_pos hc).trans ?_
      cases henter : s.control.enter? with
      | some entered =>
        rw [henter] at h
        obtain rfl := Option.some.inj h
        obtain ⟨hidle, rfl⟩ := Control.enter?_eq_some_iff.mp henter
        have hlowered : s.lowered.control.enter? = some ⟨.starting, false⟩ :=
          Control.enter?_eq_some_iff.mpr ⟨hidle, rfl⟩
        rw [hlowered]
        rfl
      | none =>
        rw [henter] at h
        obtain rfl := Option.some.inj h
        have hgate : s.control.gate ≠ .idle := fun hidle => by
          cases henter.symm.trans (Control.enter?_eq_some_iff.mpr ⟨hidle, rfl⟩)
        rw [show s.lowered.control.enter? = none from if_neg hgate]
    case isFalse => cases h
  | clear c =>
    obtain ⟨hstage, rfl⟩ := access?_clear_eq_some h
    exact if_pos hstage
  | activate c =>
    obtain ⟨hstage, rfl⟩ := access?_activate_eq_some h
    exact if_pos hstage
  | leave c =>
    obtain ⟨hinside, rfl⟩ := access?_leave_eq_some h
    exact if_neg hinside
  | stop => exact absurd rfl hstop

end Entrance

namespace Traffic

variable {Caller Asker : Type} {t t' base : Traffic Caller Asker} {k : Asker}

def initial : Traffic Caller Asker := ⟨.initial, 0, fun _ => .unmade, []⟩

def Cleared (t : Traffic Caller Asker) : Prop :=
  ∃ c, t.entrance.stage c = .cleared ∨ t.entrance.stage c = .active

theorem not_cleared_of_outside (h : ∀ c, t.entrance.stage c = .outside) : ¬t.Cleared := by
  rintro ⟨c, hc | hc⟩
  · cases (h c).symm.trans hc
  · cases (h c).symm.trans hc

theorem not_cleared_of_entered {c : Caller} (h : t.entrance.stage c = .entered)
    (hothers : ∀ d ≠ c, t.entrance.stage d = .outside) : ¬t.Cleared := by
  rintro ⟨d, hd⟩
  by_cases hdc : d = c
  · rw [hdc, h] at hd
    simp at hd
  · rw [hothers d hdc] at hd
    simp at hd

def Flagged (t : Traffic Caller Asker) (k : Asker) : Prop :=
  t.entrance.control.gate = .running ∧ k ∈ t.raisers

/-- Whatever the requests do, one run at most is inside, and the flag shows whether somebody has
raised it since it was cleared. -/
structure Sound (t : Traffic Caller Asker) : Prop where
  guarded : t.entrance.lowered.Guarded
  flag : t.entrance.control.stop = true ↔ t.raisers ≠ []
  seen : ∀ k run, (t.request k).run? = some run → run ≤ t.runs
  raised : ∀ k ∈ t.raisers, ∃ run, t.request k = .raised run

theorem sound_initial : (initial : Traffic Caller Asker).Sound where
  guarded := Entrance.guarded_initial
  flag := by simp [initial, Entrance.initial, Control.initial]
  seen _ _ h := by cases h
  raised _ h := by cases h

theorem Sound.cleared_of_running (h : t.Sound) (hgate : t.entrance.control.gate = .running) :
    t.Cleared := by
  obtain ⟨c, hc⟩ := h.guarded.exists_active hgate
  exact ⟨c, .inr hc⟩

def pass (t : Traffic Caller Asker) (a : Access Caller) (entrance : Entrance Caller) :
    Traffic Caller Asker :=
  { t with
    entrance
    runs :=
      match a with
      | .enter _ => if t.entrance.control.gate = .idle then t.runs + 1 else t.runs
      | _ => t.runs
    raisers :=
      match a with
      | .clear _ => []
      | _ => t.raisers }

theorem runs_le_pass (t : Traffic Caller Asker) (a : Access Caller) (entrance : Entrance Caller) :
    t.runs ≤ (t.pass a entrance).runs := by
  cases a with
  | enter c =>
    unfold pass
    dsimp only
    split <;> omega
  | clear | activate | leave | stop => exact Nat.le_refl _

def hoist (t : Traffic Caller Asker) (k : Asker) : Traffic Caller Asker :=
  { t with
    entrance := { t.entrance with control := t.entrance.control.raiseStop }
    raisers := k :: t.raisers }

variable [DecidableEq Asker]

def note (t : Traffic Caller Asker) (k : Asker) (request : Request) : Traffic Caller Asker :=
  { t with request := Function.update t.request k request }

@[simp] theorem request_note (t : Traffic Caller Asker) (k : Asker) (request : Request) :
    (t.note k request).request k = request :=
  Function.update_self ..

theorem request_note_of_ne {j : Asker} (h : j ≠ k) (request : Request) :
    (t.note k request).request j = t.request j :=
  Function.update_of_ne h ..

theorem Sound.look (h : t.Sound) (hk : t.request k = .unmade) : (t.note k
    (if t.entrance.control.isRunning then .aimed t.runs else .dropped)).Sound where
  guarded := h.guarded
  flag := h.flag
  seen j run hj := by
    by_cases hjk : j = k
    · subst hjk
      rw [request_note] at hj
      split at hj
      · exact Nat.le_of_eq (Option.some.inj hj).symm
      · cases hj
    · rw [request_note_of_ne hjk] at hj
      exact h.seen j run hj
  raised j hj := by
    obtain ⟨run, hrequest⟩ := h.raised j hj
    have hjk : j ≠ k := ne_of_apply_ne t.request (by simp [hk, hrequest])
    exact ⟨run, (request_note_of_ne hjk _).trans hrequest⟩

theorem Sound.raise (h : t.Sound) {run : Nat} (hk : t.request k = .aimed run) :
    ((t.note k (.raised run)).hoist k).Sound where
  guarded := h.guarded
  flag := by simp [hoist, note, Control.raiseStop]
  seen j seen hj := by
    have hj : ((t.note k (.raised run)).request j).run? = some seen := hj
    by_cases hjk : j = k
    · subst hjk
      rw [request_note] at hj
      exact h.seen j seen (hk ▸ hj)
    · rw [request_note_of_ne hjk] at hj
      exact h.seen j seen hj
  raised j hj := by
    by_cases hjk : j = k
    · subst hjk
      exact ⟨run, request_note ..⟩
    · obtain ⟨seen, hrequest⟩ := h.raised j (List.mem_of_ne_of_mem hjk hj)
      exact ⟨seen, (request_note_of_ne hjk _).trans hrequest⟩

variable [DecidableEq Caller]

def step? (t : Traffic Caller Asker) : Move Caller Asker → Option (Traffic Caller Asker)
  | .access .stop => none
  | .access a => (t.entrance.access? a).map (t.pass a)
  | .look k =>
    if t.request k = .unmade then
      some (t.note k (if t.entrance.control.isRunning then .aimed t.runs else .dropped))
    else none
  | .raise k =>
    match t.request k with
    | .aimed run => some ((t.note k (.raised run)).hoist k)
    | .unmade | .raised _ | .dropped => none

def walk? (t : Traffic Caller Asker) (moves : List (Move Caller Asker)) :
    Option (Traffic Caller Asker) :=
  moves.foldlM step? t

@[simp] theorem walk?_nil (t : Traffic Caller Asker) : t.walk? [] = some t := rfl

@[simp] theorem walk?_cons (t : Traffic Caller Asker) (m : Move Caller Asker)
    (moves : List (Move Caller Asker)) :
    t.walk? (m :: moves) = (t.step? m).bind (walk? · moves) :=
  List.foldlM_cons

theorem step?_access_eq_some {a : Access Caller} (h : t.step? (.access a) = some t') :
    a ≠ .stop ∧ ∃ entrance, t.entrance.access? a = some entrance ∧ t' = t.pass a entrance := by
  cases a with
  | stop => cases h
  | enter | clear | activate | leave =>
    obtain ⟨entrance, ha, rfl⟩ := Option.map_eq_some_iff.mp h
    exact ⟨nofun, entrance, ha, rfl⟩

theorem step?_look_eq_some (h : t.step? (.look k) = some t') : t.request k = .unmade ∧
    t' = t.note k (if t.entrance.control.isRunning then .aimed t.runs else .dropped) := by
  simp only [step?, Option.ite_none_right_eq_some, Option.some.injEq] at h
  exact ⟨h.1, h.2.symm⟩

theorem step?_raise_eq_some (h : t.step? (.raise k) = some t') :
    ∃ run, t.request k = .aimed run ∧ t' = (t.note k (.raised run)).hoist k := by
  simp only [step?] at h
  split at h
  · rename_i run hrequest
    exact ⟨run, hrequest, (Option.some.inj h).symm⟩
  · cases h
  · cases h
  · cases h

theorem flag_of_access {s s' : Entrance Caller} {a : Access Caller} (h : s.access? a = some s')
    (hstop : a ≠ .stop) :
    s'.control.stop = match a with
      | .clear _ => false
      | _ => s.control.stop := by
  cases a with
  | enter c =>
    rcases Entrance.access?_enter_eq_some h with rfl | ⟨-, rfl⟩
    · rfl
    · rfl
  | clear c => exact (Entrance.access?_clear_eq_some h).2 ▸ rfl
  | activate c => exact (Entrance.access?_activate_eq_some h).2 ▸ rfl
  | leave c => exact (Entrance.access?_leave_eq_some h).2 ▸ rfl
  | stop => exact absurd rfl hstop

omit [DecidableEq Asker] in
theorem Sound.pass (h : t.Sound) {a : Access Caller} (hstop : a ≠ .stop)
    {entrance : Entrance Caller} (ha : t.entrance.access? a = some entrance) :
    (t.pass a entrance).Sound where
  guarded := h.guarded.access (Entrance.access?_lowered ha hstop)
  flag := by
    have hflag := flag_of_access ha hstop
    cases a with
    | clear c => simp [Traffic.pass, hflag]
    | enter | activate | leave => exact hflag ▸ h.flag
    | stop => exact absurd rfl hstop
  seen k run hk := Nat.le_trans (h.seen k run hk) (t.runs_le_pass a entrance)
  raised k hk := by
    cases a with
    | clear => cases hk
    | enter | activate | leave | stop => exact h.raised k hk

theorem Sound.step (h : t.Sound) {m : Move Caller Asker} (hm : t.step? m = some t') : t'.Sound := by
  cases m with
  | access a =>
    obtain ⟨hstop, entrance, ha, rfl⟩ := step?_access_eq_some hm
    exact h.pass hstop ha
  | look k =>
    obtain ⟨hk, rfl⟩ := step?_look_eq_some hm
    exact h.look hk
  | raise k =>
    obtain ⟨run, hk, rfl⟩ := step?_raise_eq_some hm
    exact h.raise hk

theorem walk_invariant {I : Traffic Caller Asker → Prop} {moves : List (Move Caller Asker)}
    (hkeeps : ∀ m t t', I t → t.step? m = some t' → I t') (h : I t)
    (hwalk : t.walk? moves = some t') : I t' := by
  induction moves generalizing t with
  | nil => exact Option.some.inj hwalk ▸ h
  | cons m moves ih =>
    rw [walk?_cons, Option.bind_eq_some_iff] at hwalk
    obtain ⟨between, hm, hrest⟩ := hwalk
    exact ih (hkeeps m t between h hm) hrest

theorem Sound.walk {moves : List (Move Caller Asker)} (h : t.Sound)
    (hwalk : t.walk? moves = some t') : t'.Sound :=
  walk_invariant (fun _ _ _ h hm => h.step hm) h hwalk

/-- A request that has raised the flag stays with the run that was inside then. -/
def Lasts (base : Traffic Caller Asker) (k : Asker) (t : Traffic Caller Asker) : Prop :=
  (∃ run, t.request k = .raised run) ∧
    (k ∈ t.raisers → t.Cleared → base.Cleared ∧ t.runs = base.runs)

omit [DecidableEq Asker] in
theorem Lasts.pass (h : base.Lasts k t) (hs : t.Sound) {a : Access Caller} (hstop : a ≠ .stop)
    {entrance : Entrance Caller} (ha : t.entrance.access? a = some entrance) :
    base.Lasts k (t.pass a entrance) := by
  refine ⟨h.1, fun hk hcleared => ?_⟩
  cases a with
  | enter c =>
    -- nobody comes in while somebody is inside, and who has come in has not cleared the flag
    by_cases hidle : t.entrance.control.gate = .idle
    · have hout := hs.guarded.idle_iff.mp hidle
      rcases Entrance.access?_enter_eq_some ha with rfl | ⟨-, rfl⟩
      · exact absurd hcleared (not_cleared_of_outside hout)
      · exact absurd hcleared (not_cleared_of_entered (Entrance.stage_move ..) fun d hd =>
          (Entrance.stage_move_of_ne hd ..).trans (hout d))
    · rcases Entrance.access?_enter_eq_some ha with rfl | ⟨hgate, -⟩
      · obtain ⟨hbase, hruns⟩ := h.2 hk hcleared
        exact ⟨hbase, (if_neg hidle).trans hruns⟩
      · exact absurd hgate hidle
  | clear c => cases hk
  | activate c =>
    obtain ⟨hstage, -⟩ := Entrance.access?_activate_eq_some ha
    exact h.2 hk ⟨c, .inl hstage⟩
  | leave c =>
    obtain ⟨hinside, rfl⟩ := Entrance.access?_leave_eq_some ha
    refine absurd hcleared (not_cleared_of_outside fun d => ?_)
    by_cases hd : d = c
    · exact hd ▸ Entrance.stage_move ..
    · exact (Entrance.stage_move_of_ne hd ..).trans (hs.guarded.others hinside d hd)
  | stop => exact absurd rfl hstop

theorem Lasts.step (h : base.Lasts k t) (hs : t.Sound) {m : Move Caller Asker}
    (hm : t.step? m = some t') : base.Lasts k t' := by
  cases m with
  | access a =>
    obtain ⟨hstop, entrance, ha, rfl⟩ := step?_access_eq_some hm
    exact h.pass hs hstop ha
  | look j =>
    obtain ⟨hj, rfl⟩ := step?_look_eq_some hm
    obtain ⟨⟨run, hrequest⟩, hlasts⟩ := h
    have hkj : k ≠ j := ne_of_apply_ne t.request (by simp [hj, hrequest])
    exact ⟨⟨run, (request_note_of_ne hkj _).trans hrequest⟩, hlasts⟩
  | raise j =>
    obtain ⟨seen, hj, rfl⟩ := step?_raise_eq_some hm
    obtain ⟨⟨run, hrequest⟩, hlasts⟩ := h
    have hkj : k ≠ j := ne_of_apply_ne t.request (by simp [hj, hrequest])
    refine ⟨⟨run, (request_note_of_ne hkj _).trans hrequest⟩, fun hk hcleared => ?_⟩
    exact hlasts (List.mem_of_ne_of_mem hkj hk) hcleared

omit [DecidableEq Caller] in
theorem lasts_raise (run : Nat) :
    t.Lasts k ((t.note k (.raised run)).hoist k) :=
  ⟨⟨run, request_note ..⟩, fun _ hcleared => ⟨hcleared, rfl⟩⟩

/-- Once the flag has been raised, only a run that was inside then and had cleared it before finds
it as it was raised. -/
theorem Sound.flagged_later (h : t.Sound) {later : List (Move Caller Asker)}
    (hwalk : t.walk? (.raise k :: later) = some t') (hk : t'.Flagged k) :
    t.Cleared ∧ t'.runs = t.runs := by
  rw [walk?_cons, Option.bind_eq_some_iff] at hwalk
  obtain ⟨between, hraise, hrest⟩ := hwalk
  obtain ⟨run, -, rfl⟩ := step?_raise_eq_some hraise
  -- carried along by whatever happens after the flag went up
  have hlasts := walk_invariant (I := fun s => s.Sound ∧ t.Lasts k s)
    (fun _ _ _ hi hm => ⟨hi.1.step hm, hi.2.step hi.1 hm⟩) ⟨h.step hraise, lasts_raise run⟩ hrest
  exact hlasts.2.2 hk.2 (hlasts.1.cleared_of_running hk.1)

theorem Sound.flagged_of_cleared (h : t.Sound) (hcleared : t.Cleared) {run : Nat}
    (hk : t.request k = .aimed run) :
    ∃ later t', t.walk? (.raise k :: later) = some t' ∧ t'.Flagged k ∧ t'.runs = t.runs := by
  let up := (t.note k (.raised run)).hoist k
  have hraise : t.step? (.raise k) = some up := by rw [step?, hk]
  obtain ⟨c, hstage | hstage⟩ := hcleared
  · let entrance := up.entrance.move c up.entrance.control.activate .active
    have hactivate : up.step? (.access (.activate c)) = some (up.pass (.activate c) entrance) :=
      congrArg (Option.map (up.pass (.activate c))) (if_pos hstage)
    refine ⟨[.access (.activate c)], up.pass (.activate c) entrance, ?_,
      ⟨rfl, List.mem_cons_self ..⟩, rfl⟩
    rw [walk?_cons, hraise, Option.bind_some, walk?_cons, hactivate]
    rfl
  · refine ⟨[], up, ?_, ⟨h.guarded.running hstage, List.mem_cons_self ..⟩, rfl⟩
    rw [walk?_cons, hraise]
    rfl

theorem step?_access {a : Access Caller} (hstop : a ≠ .stop) :
    t.step? (.access a) = (t.entrance.access? a).map (t.pass a) := by
  cases a with
  | stop => exact absurd rfl hstop
  | enter | clear | activate | leave => rfl

theorem walk?_access {accesses : List (Access Caller)} (hstop : .stop ∉ accesses)
    {entrance : Entrance Caller} (h : t.entrance.walk? accesses = some entrance) :
    ∃ t', t.walk? (accesses.map .access) = some t' ∧ t'.entrance = entrance := by
  induction accesses generalizing t with
  | nil => exact ⟨t, rfl, Option.some.inj h⟩
  | cons a accesses ih =>
    rw [Entrance.walk?_cons, Option.bind_eq_some_iff] at h
    obtain ⟨between, ha, hrest⟩ := h
    obtain ⟨hother, hstop⟩ := not_or.mp (mt List.mem_cons.mpr hstop)
    obtain ⟨t', hwalk, hentrance⟩ := ih (t := t.pass a between) hstop hrest
    refine ⟨t', ?_, hentrance⟩
    rw [List.map_cons, walk?_cons, step?_access (Ne.symm hother), ha]
    exact hwalk

def ask (t : Traffic Caller Asker) (k : Asker) : List (Move Caller Asker) :=
  if t.entrance.control.isRunning then [.look k, .raise k] else [.look k]

theorem walk?_ask (hk : t.request k = .unmade) : ∃ t', t.walk? (t.ask k) = some t' ∧
    t'.entrance.control = t.entrance.control.requestStop := by
  cases hrunning : t.entrance.control.isRunning with
  | true =>
    let seen := t.note k (.aimed t.runs)
    have hlook : t.step? (.look k) = some seen := by
      rw [step?, if_pos hk, hrunning]
      rfl
    have hraise : seen.step? (.raise k) = some ((seen.note k (.raised t.runs)).hoist k) := by
      rw [step?, request_note]
    refine ⟨(seen.note k (.raised t.runs)).hoist k, ?_,
      (Control.requestStop_of_running hrunning).symm⟩
    rw [ask, if_pos hrunning, walk?_cons, hlook, Option.bind_some, walk?_cons, hraise]
    rfl
  | false =>
    have hlook : t.step? (.look k) = some (t.note k .dropped) := by
      rw [step?, if_pos hk, hrunning]
      rfl
    refine ⟨t.note k .dropped, ?_, (Control.requestStop_of_not_running hrunning).symm⟩
    rw [ask, if_neg (by simp [hrunning]), walk?_cons, hlook]
    rfl

end Traffic

namespace Engine

variable {Caller : Type} (c : Caller)

theorem stop_notMem_departure (flight : Flight) : .stop ∉ departure c flight := by
  cases flight <;> simp [departure]

theorem stop_notMem_visit (result : Except IngestError Flight) : .stop ∉ visit c result := by
  cases result with
  | error error => cases error <;> simp [visit]
  | ok flight => simp [visit, stop_notMem_departure c flight]

end Engine

namespace Traffic

variable {Caller Asker : Type} [DecidableEq Caller] [DecidableEq Asker]

/-- However runs come and go, and however far stop requests have come meanwhile: the flag is up
exactly if somebody has raised it since it was cleared last, and who has raised it has seen a run,
the last one that came in or one before. A request that is about to raise the flag may leave it up
for another run than the one that it has seen, and it may exactly if it comes so late that a later
run has cleared the flag already; as long as no other run came in since it looked, it reaches its
own run or none. The starts and replies of an engine are such moves, and so are its stop requests,
as long as nothing comes between their two accesses. -/
theorem stop_reaches_later_run_iff {moves : List (Move Caller Asker)} {t : Traffic Caller Asker}
    (h : initial.walk? moves = some t) :
    (t.entrance.control.stop = true ↔ t.raisers ≠ []) ∧
    (∀ k ∈ t.raisers, ∃ run, t.request k = .raised run ∧ run ≤ t.runs) ∧
    (∀ k run, t.request k = .aimed run →
      ((∃ later t', t.walk? (.raise k :: later) = some t' ∧ t'.Flagged k ∧ t'.runs ≠ run) ↔
        run < t.runs ∧ t.Cleared)) ∧
    (∀ e : Engine, e.control = t.entrance.control →
      (∀ k, t.request k = .unmade → ∃ t', t.walk? (t.ask k) = some t' ∧
        t'.entrance.control = e.stop.control) ∧
      (∀ c request, t.entrance.stage c = .outside → ∃ t',
        t.walk? ((Engine.visit c (e.start request).2).map .access) = some t' ∧
          t'.entrance.control = (e.start request).1.control) ∧
      ∀ c run answer, t.entrance.stage c = .active → ∃ t',
        t.walk? ((Engine.departure c (e.reply run answer).2).map .access) = some t' ∧
          t'.entrance.control = (e.reply run answer).1.control) := by
  have hs : t.Sound := sound_initial.walk h
  refine ⟨hs.flag, fun k hk => ?_, fun k run hk => ⟨?_, ?_⟩,
    fun e hcontrol => ⟨fun k hk => ?_, fun c request hc => ?_, fun c run answer hc => ?_⟩⟩
  · obtain ⟨run, hrequest⟩ := hs.raised k hk
    exact ⟨run, hrequest, hs.seen k run (hrequest ▸ rfl)⟩
  · rintro ⟨later, t', hwalk, hflagged, hother⟩
    obtain ⟨hcleared, hruns⟩ := hs.flagged_later hwalk hflagged
    have hle := hs.seen k run (hk ▸ rfl)
    exact ⟨by omega, hcleared⟩
  · rintro ⟨hlater, hcleared⟩
    obtain ⟨later, t', hwalk, hflagged, hruns⟩ := hs.flagged_of_cleared hcleared hk
    exact ⟨later, t', hwalk, hflagged, by omega⟩
  · rw [Engine.stop, hcontrol]
    exact walk?_ask hk
  · obtain ⟨entrance, hvisit, hgate⟩ := Engine.walk?_visit hcontrol hc request
    obtain ⟨t', hwalk, rfl⟩ := walk?_access (Engine.stop_notMem_visit c _) hvisit
    exact ⟨t', hwalk, hgate⟩
  · obtain ⟨entrance, hleave, hgate⟩ := Engine.walk?_departure hcontrol hc _ _
    obtain ⟨t', hwalk, rfl⟩ := walk?_access (Engine.stop_notMem_departure c _) hleave
    exact ⟨t', hwalk, hgate⟩

def slowStop : List (Move Unit Unit) :=
  [.access (.enter ()), .access (.clear ()), .access (.activate ()), .look (),
    .access (.leave ()), .access (.enter ()), .access (.clear ()), .access (.activate ())]

theorem slowStop_reaches_later_run : ∃ t : Traffic Unit Unit, initial.walk? slowStop = some t ∧
    t.request () = .aimed 1 ∧
    ∃ later t', t.walk? (.raise () :: later) = some t' ∧ t'.Flagged () ∧ t'.runs ≠ 1 := by
  obtain ⟨-, -, hlate, -⟩ := @stop_reaches_later_run_iff Unit Unit _ _ slowStop _ rfl
  exact ⟨_, rfl, rfl, (hlate () 1 rfl).mpr ⟨by decide, (), .inr rfl⟩⟩

/-- A stop request is not always for the run that it has seen: the second run is told to stop by the
only request, which has seen the first. -/
theorem stop_not_always_for_seen_run :
    ¬∀ (moves : List (Move Unit Unit)) (t : Traffic Unit Unit) (k : Unit) (run : Nat),
      initial.walk? moves = some t → t.request k = .raised run → t.Flagged k → t.runs = run := by
  intro hall
  have htwo := hall (slowStop ++ [.raise ()]) _ () 1 rfl rfl ⟨rfl, List.mem_cons_self ..⟩
  cases htwo

end Traffic
end LedgerFeed
