import Mathlib.Data.List.Basic
import LedgerFeed.Proofs.Offering

/-! The recent ids as a queue. Whatever is recorded, looked up and cleared, and in whatever order,
the window holds different ids, no more than its capacity, and these are the ones inserted last: an
id leaves by a clearing, or by as many insertions as there are places. Looking it up or recording it
again does not keep it. -/

namespace LedgerFeed.RecentIds

inductive Operation where
  | record (id : String)
  | look (id : String)
  | clear
  deriving DecidableEq

def operate (r : RecentIds) : Operation → RecentIds × Option Bool
  | .record id => (r.record id, none)
  | .look id => (r, some (r.contains id))
  | .clear => (r.clear, none)

def after (r : RecentIds) (ops : List Operation) : RecentIds :=
  ops.foldl (fun r op => (r.operate op).1) r

def inserted? (r : RecentIds) : Operation → Option String
  | .record id => if r.contains id then none else some id
  | .look _ | .clear => none

def insertions (r : RecentIds) : List Operation → List String
  | [] => []
  | op :: ops => (r.inserted? op).toList ++ (r.operate op).1.insertions ops

/-- An id was inserted after the last clearing, and which ids were inserted since then; its own is
not among them. -/
def InsertedLast (r : RecentIds) (ops : List Operation) (id : String) (since : List String) :
    Prop :=
  ∃ before after, ops = before ++ .record id :: after ∧ (r.after before).contains id = false ∧
    .clear ∉ after ∧ id ∉ since ∧ (r.after (before ++ [.record id])).insertions after = since

structure Proper (r : RecentIds) : Prop where
  size_le : r.size ≤ r.capacity
  nodup : r.ids.Nodup

variable {r : RecentIds} {op : Operation} {ops : List Operation} {ids since : List String}
  {id : String}

@[simp] theorem after_nil (r : RecentIds) : r.after [] = r := rfl

@[simp] theorem after_cons (r : RecentIds) (op : Operation) (ops : List Operation) :
    r.after (op :: ops) = (r.operate op).1.after ops := rfl

@[simp] theorem after_append (r : RecentIds) (ops later : List Operation) :
    r.after (ops ++ later) = (r.after ops).after later :=
  List.foldl_append

@[simp] theorem capacity_operate (r : RecentIds) (op : Operation) :
    (r.operate op).1.capacity = r.capacity := by
  cases op with
  | record id => exact r.capacity_record id
  | look | clear => rfl

@[simp] theorem capacity_after (r : RecentIds) (ops : List Operation) :
    (r.after ops).capacity = r.capacity := by
  induction ops generalizing r with
  | nil => rfl
  | cons op ops ih => rw [after_cons, ih, capacity_operate]

theorem proper_ofCapacity (capacity : Nat) : (ofCapacity capacity).Proper :=
  ⟨Nat.zero_le _, List.nodup_nil⟩

theorem Proper.operate (h : r.Proper) (op : Operation) : (r.operate op).1.Proper := by
  cases op with
  | record id =>
    refine ⟨?_, nodup_record h.nodup id⟩
    rw [capacity_operate]
    exact size_record_le h.size_le id
  | look id => exact h
  | clear => exact ⟨Nat.zero_le _, List.nodup_nil⟩

theorem Proper.after (h : r.Proper) (ops : List Operation) : (r.after ops).Proper := by
  induction ops generalizing r with
  | nil => exact h
  | cons op ops ih => exact ih (h.operate op)

theorem operate_of_inserted? (h : r.inserted? op = none) (hclear : op ≠ .clear) :
    (r.operate op).1 = r := by
  cases op with
  | record id =>
    rw [inserted?] at h
    split at h
    · rename_i hc
      exact record_of_contains hc
    · cases h
  | look id => rfl
  | clear => exact absurd rfl hclear

theorem inserted?_eq_some (h : r.inserted? op = some id) :
    op = .record id ∧ r.contains id = false := by
  cases op with
  | record id' =>
    rw [inserted?] at h
    split at h
    · cases h
    · rename_i hc
      obtain rfl := Option.some.inj h
      exact ⟨rfl, Bool.eq_false_iff.mpr hc⟩
  | look | clear => cases h

/-! The ids that are held are the ones inserted last. -/

theorem Holds.operate (h : r.Holds ids) (hclear : op ≠ .clear) :
    (r.operate op).1.Holds (ids ++ (r.inserted? op).toList) := by
  cases hi : r.inserted? op with
  | none =>
    rw [operate_of_inserted? hi hclear, Option.toList_none, List.append_nil]
    exact h
  | some id =>
    obtain ⟨rfl, hc⟩ := inserted?_eq_some hi
    exact h.insert hc

theorem Holds.after (h : r.Holds ids) (hclear : .clear ∉ ops) :
    (r.after ops).Holds (ids ++ r.insertions ops) := by
  induction ops generalizing r ids with
  | nil => rwa [insertions, List.append_nil]
  | cons op ops ih =>
    obtain ⟨hop, hops⟩ := List.ne_and_not_mem_of_not_mem_cons hclear
    have hfirst := h.operate (Ne.symm hop)
    rw [insertions, ← List.append_assoc]
    exact ih hfirst hops

theorem Holds.contains_iff (h : r.Holds ids) :
    r.contains id = true ↔ id ∈ ids.reverse.take r.capacity := by
  rw [RecentIds.contains, List.contains_iff_mem, h]

theorem holds_of_ids_eq_nil (h : r.ids = []) : r.Holds [] := by
  rw [Holds, h, List.reverse_nil, List.take_nil]

theorem eq_of_mem_clear (h : .clear ∈ ops) :
    ∃ before after, ops = before ++ .clear :: after ∧ .clear ∉ after := by
  induction ops with
  | nil => cases h
  | cons op ops ih =>
    by_cases hlater : .clear ∈ ops
    · obtain ⟨before, after, rfl, hafter⟩ := ih hlater
      exact ⟨op :: before, after, rfl, hafter⟩
    · obtain rfl := (List.mem_cons.mp h).resolve_right hlater
      exact ⟨[], ops, rfl, hlater⟩

theorem exists_since_clear (h : r.ids = []) (ops : List Operation) :
    ∃ before after, ops = before ++ after ∧ .clear ∉ after ∧
      (r.after ops).Holds ((r.after before).insertions after) := by
  by_cases hclear : .clear ∈ ops
  · obtain ⟨before, after, rfl, hafter⟩ := eq_of_mem_clear hclear
    have hholds : (r.after (before ++ [.clear])).Holds [] := by
      rw [after_append]
      exact holds_of_ids_eq_nil rfl
    refine ⟨before ++ [.clear], after, by simp, hafter, ?_⟩
    simpa using hholds.after hafter
  · exact ⟨[], ops, rfl, hclear, by simpa using (holds_of_ids_eq_nil h).after hclear⟩

theorem exists_of_insertions_eq {ys zs : List String} (h : r.insertions ops = ys ++ id :: zs) :
    ∃ before after, ops = before ++ .record id :: after ∧ (r.after before).contains id = false ∧
      (r.after (before ++ [.record id])).insertions after = zs := by
  induction ops generalizing r ys with
  | nil => cases ys <;> cases h
  | cons op ops ih =>
    rw [insertions] at h
    have hlater (ys : List String) (h : (r.operate op).1.insertions ops = ys ++ id :: zs) :
        ∃ before after, op :: ops = before ++ .record id :: after ∧
          (r.after before).contains id = false ∧
          (r.after (before ++ [.record id])).insertions after = zs := by
      obtain ⟨before, after, rfl, hc, hzs⟩ := ih h
      exact ⟨op :: before, after, rfl, hc, hzs⟩
    cases hi : r.inserted? op with
    | none =>
      rw [hi, Option.toList_none, List.nil_append] at h
      exact hlater ys h
    | some first =>
      obtain ⟨rfl, hc⟩ := inserted?_eq_some hi
      rw [hi, Option.toList_some, List.singleton_append] at h
      cases ys with
      | nil =>
        obtain ⟨rfl, hrest⟩ := List.cons.inj h
        exact ⟨[], ops, rfl, hc, hrest⟩
      | cons _ ys => exact hlater ys (List.cons.inj h).2

theorem exists_last_of_mem_take {n : Nat} (h : id ∈ ids.reverse.take n) :
    ∃ older since, ids = older ++ id :: since ∧ id ∉ since ∧ since.length < n := by
  obtain ⟨latest, rest, hlatest, hid⟩ := List.eq_append_cons_of_mem h
  have hlength := List.length_take_le n ids.reverse
  rw [hlatest, List.length_append, List.length_cons] at hlength
  have hids := List.take_append_drop n ids.reverse
  rw [hlatest, List.append_assoc, List.cons_append, eq_comm, List.reverse_eq_iff] at hids
  refine ⟨(rest ++ ids.reverse.drop n).reverse, latest.reverse, ?_, by simpa using hid, ?_⟩
  · simpa using hids
  · rw [List.length_reverse]
    omega

theorem Proper.holds (h : r.Proper) : r.Holds r.ids.reverse := by
  rw [Holds, List.reverse_reverse]
  exact (List.take_of_length_le h.size_le).symm

theorem InsertedLast.contains (h : r.InsertedLast ops id since) (hr : r.Proper)
    (hlt : since.length < r.capacity) : (r.after ops).contains id = true := by
  obtain ⟨before, after, rfl, hc, hclear, -, rfl⟩ := h
  have hinserted := ((hr.after before).holds.insert hc).after hclear
  rw [List.append_assoc, List.singleton_append] at hinserted
  rw [after_append, after_cons]
  refine hinserted.contains ?_ (List.mem_cons_self ..)
  rw [capacity_after, capacity_record, capacity_after, List.length_cons]
  simpa [operate] using Nat.succ_le_of_lt hlt

/-- A window that began empty holds the ids since whose last insertion few others were inserted. -/
theorem contains_after_iff (h : r.ids = []) :
    (r.after ops).contains id = true ↔
      ∃ since, r.InsertedLast ops id since ∧ since.length < r.capacity := by
  have hproper : r.Proper := ⟨by simp [size, h], by simp [h]⟩
  constructor
  · intro hc
    obtain ⟨earlier, later, rfl, hclear, hholds⟩ := exists_since_clear h ops
    rw [hholds.contains_iff, capacity_after] at hc
    obtain ⟨older, since, hinsertions, hid, hlt⟩ := exists_last_of_mem_take hc
    obtain ⟨before, after, rfl, habsent, hsince⟩ := exists_of_insertions_eq hinsertions
    refine ⟨since, ⟨earlier ++ before, after, by simp, by simpa using habsent, ?_, hid, ?_⟩, hlt⟩
    · exact fun hmem => hclear (by simp [hmem])
    · rw [List.append_assoc, after_append]
      exact hsince
  · rintro ⟨since, hlast, hlt⟩
    exact hlast.contains hproper hlt

/-- Whatever is done to a window, it never holds more ids than it has places, nor one twice. What
does not insert or clear changes nothing, a look least of all; and a look finds an id just if it was
inserted after the last clearing and, since its latest insertion, fewer ids were inserted than there
are places. -/
theorem recent_ids_queue (capacity : Nat) (ops : List Operation) :
    ((ofCapacity capacity).after ops).size ≤ max capacity 1 ∧
    ((ofCapacity capacity).after ops).ids.Nodup ∧
    (∀ op, op ≠ .clear → ((ofCapacity capacity).after ops).inserted? op = none →
      (((ofCapacity capacity).after ops).operate op).1 = (ofCapacity capacity).after ops) ∧
    ∀ id, ∃ found : Bool,
      ((ofCapacity capacity).after ops).operate (.look id) =
        ((ofCapacity capacity).after ops, some found) ∧
      (found = true ↔ ∃ since, (ofCapacity capacity).InsertedLast ops id since ∧
        since.length < max capacity 1) := by
  have hproper := (proper_ofCapacity capacity).after ops
  have hcapacity : ((ofCapacity capacity).after ops).capacity = max capacity 1 :=
    capacity_after ..
  refine ⟨hcapacity ▸ hproper.size_le, hproper.nodup, fun op hclear hi => ?_, fun id => ?_⟩
  · exact operate_of_inserted? hi hclear
  · exact ⟨_, rfl, contains_after_iff rfl⟩

/-- An id that is looked up and recorded once more makes room all the same. -/
example : (((ofCapacity 2).after [.record "a", .record "b", .look "a", .record "a",
    .record "c"]).operate (.look "a")).2 = some false := by decide

end LedgerFeed.RecentIds
