/-! The event ids that a run remembers against duplicates: the most recent distinct ones, up to a
capacity. Looking an id up, or recording it again, does not renew it. -/

namespace LedgerFeed

structure RecentIds where
  capacity : Nat
  /-- Latest first. -/
  ids : List String
  deriving DecidableEq

namespace RecentIds

def ofCapacity (capacity : Nat) : RecentIds :=
  ⟨max capacity 1, []⟩

def contains (r : RecentIds) (id : String) : Bool :=
  r.ids.contains id

def record (r : RecentIds) (id : String) : RecentIds :=
  if r.contains id then r else { r with ids := (id :: r.ids).take r.capacity }

def clear (r : RecentIds) : RecentIds :=
  { r with ids := [] }

def size (r : RecentIds) : Nat :=
  r.ids.length

@[simp] theorem capacity_record (r : RecentIds) (id : String) :
    (r.record id).capacity = r.capacity := by
  unfold record
  split <;> rfl

theorem record_of_contains {r : RecentIds} {id : String} (h : r.contains id = true) :
    r.record id = r := if_pos h

theorem ids_record_of_not_contains {r : RecentIds} {id : String} (h : r.contains id = false) :
    (r.record id).ids = (id :: r.ids).take r.capacity := by
  rw [record, if_neg (by simp [h])]

theorem size_record_le {r : RecentIds} (h : r.size ≤ r.capacity) (id : String) :
    (r.record id).size ≤ r.capacity := by
  cases hc : r.contains id with
  | true => rwa [record_of_contains hc]
  | false =>
    rw [size, ids_record_of_not_contains hc]
    exact List.length_take_le ..

theorem nodup_record {r : RecentIds} (h : r.ids.Nodup) (id : String) :
    (r.record id).ids.Nodup := by
  cases hc : r.contains id with
  | true => rwa [record_of_contains hc]
  | false =>
    rw [ids_record_of_not_contains hc]
    have hnew : id ∉ r.ids := by simpa [contains] using hc
    exact (List.nodup_cons.mpr ⟨hnew, h⟩).sublist (List.take_sublist ..)

end RecentIds
end LedgerFeed
