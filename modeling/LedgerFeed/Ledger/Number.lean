/-! Ledger sequence numbers: 32-bit words, whose arithmetic stops at the last number. -/

namespace LedgerFeed

abbrev LedgerNumber := UInt32

namespace LedgerNumber

def last : LedgerNumber := 0xFFFFFFFF

/-- The ledger `n` further on, but none past the last. -/
def advance (l n : LedgerNumber) : LedgerNumber :=
  UInt32.ofNatClamp (l.toNat + n.toNat)

def following (l : LedgerNumber) : LedgerNumber :=
  l.advance 1

def above (l m : LedgerNumber) : UInt32 :=
  if m ≤ l then l - m else 0

theorem toNat_advance (l n : LedgerNumber) :
    (l.advance n).toNat = min (l.toNat + n.toNat) (UInt32.size - 1) := by
  unfold advance
  by_cases h : l.toNat + n.toNat < UInt32.size
  · rw [UInt32.toNat_ofNatClamp_of_lt h]
    omega
  · rw [UInt32.toNat_ofNatClamp_of_le (Nat.le_of_not_lt h)]
    omega

theorem toNat_following (l : LedgerNumber) :
    l.following.toNat = min (l.toNat + 1) (UInt32.size - 1) :=
  toNat_advance l 1

theorem toNat_lt_last {l : LedgerNumber} (h : l ≠ last) : l.toNat < UInt32.size - 1 :=
  Nat.lt_of_le_of_ne (Nat.le_sub_one_of_lt l.toNat_lt_size) fun hl => h (UInt32.toNat_inj.mp hl)

theorem ne_last_of_lt {l m : LedgerNumber} (h : l < m) : l ≠ last := by
  rintro rfl
  have hlast : last.toNat = UInt32.size - 1 := rfl
  have := UInt32.lt_iff_toNat_lt.mp h
  have := m.toNat_lt_size
  omega

theorem eq_last_of_le {l : LedgerNumber} (h : last ≤ l) : l = last := by
  apply Decidable.byContradiction
  intro hne
  exact absurd (UInt32.le_iff_toNat_le.mp h) (Nat.not_le.mpr (toNat_lt_last hne))

theorem toNat_add_ofNat {l : LedgerNumber} {n : Nat} (h : l.toNat + n < UInt32.size) :
    (l + UInt32.ofNat n).toNat = l.toNat + n := by
  have hn : n < UInt32.size := by omega
  rw [UInt32.toNat_add, UInt32.toNat_ofNat_of_lt' hn]
  exact Nat.mod_eq_of_lt h

theorem toNat_add_one {l : LedgerNumber} (h : l ≠ last) : (l + 1).toNat = l.toNat + 1 := by
  have hlt := toNat_lt_last h
  have hsize : l.toNat + 1 < UInt32.size := by omega
  exact toNat_add_ofNat hsize

theorem following_eq {l : LedgerNumber} (h : l ≠ last) : l.following = l + 1 := by
  have hlt := toNat_lt_last h
  rw [← UInt32.toNat_inj, toNat_following, toNat_add_one h]
  omega

theorem toNat_following_of_ne {l : LedgerNumber} (h : l ≠ last) :
    l.following.toNat = l.toNat + 1 := by
  rw [following_eq h, toNat_add_one h]

theorem le_following (l : LedgerNumber) : l ≤ l.following := by
  have hnext := toNat_following l
  have hsize := l.toNat_lt_size
  exact UInt32.le_iff_toNat_le.mpr (by omega)

theorem lt_following {l : LedgerNumber} (h : l ≠ last) : l < l.following := by
  rw [UInt32.lt_iff_toNat_lt, toNat_following_of_ne h]
  exact Nat.lt_succ_self _

theorem le_of_lt_following {l m : LedgerNumber} (h : l < m.following) : l ≤ m := by
  have hlt := UInt32.lt_iff_toNat_lt.mp h
  have hnext := toNat_following m
  exact UInt32.le_iff_toNat_le.mpr (by omega)

theorem le_following_of_lt {l m : LedgerNumber} (h : l < m) (hle : m.toNat ≤ l.toNat + 1) :
    m ≤ l.following := by
  rw [UInt32.le_iff_toNat_le, toNat_following_of_ne (ne_last_of_lt h)]
  exact hle

theorem eq_following_of_lt {l m : LedgerNumber} (h : l < m) (hle : m.toNat ≤ l.toNat + 1) :
    m = l.following := by
  refine UInt32.le_antisymm (le_following_of_lt h hle) ?_
  rw [UInt32.le_iff_toNat_le, toNat_following_of_ne (ne_last_of_lt h)]
  exact UInt32.lt_iff_toNat_lt.mp h

theorem toNat_sub_one {l m : LedgerNumber} (h : l < m) : (m - 1).toNat = m.toNat - 1 := by
  have hlt := UInt32.lt_iff_toNat_lt.mp h
  have hone : (1 : LedgerNumber) ≤ m :=
    UInt32.le_iff_toNat_le.mpr (Nat.succ_le_of_lt (Nat.zero_lt_of_lt hlt))
  rw [UInt32.toNat_sub_of_le _ _ hone, UInt32.toNat_one]

theorem le_sub_one {l m : LedgerNumber} (h : l < m) : l ≤ m - 1 := by
  have hlt := UInt32.lt_iff_toNat_lt.mp h
  rw [UInt32.le_iff_toNat_le, toNat_sub_one h]
  omega

theorem sub_one_lt {l m : LedgerNumber} (h : l < m) : m - 1 < m := by
  have hlt := UInt32.lt_iff_toNat_lt.mp h
  rw [UInt32.lt_iff_toNat_lt, toNat_sub_one h]
  omega

theorem following_sub_one {l m : LedgerNumber} (h : l < m) : (m - 1).following = m := by
  have hlt := UInt32.lt_iff_toNat_lt.mp h
  rw [← UInt32.toNat_inj, toNat_following_of_ne (ne_last_of_lt (sub_one_lt h)), toNat_sub_one h]
  omega

theorem toNat_min (l m : UInt32) : (min l m).toNat = min l.toNat m.toNat := by
  rw [Std.min_eq_if]
  by_cases hle : l ≤ m
  · rw [if_pos hle, Nat.min_eq_left (UInt32.le_iff_toNat_le.mp hle)]
  · have hge := UInt32.le_of_lt (UInt32.not_le.mp hle)
    rw [if_neg hle, Nat.min_eq_right (UInt32.le_iff_toNat_le.mp hge)]

theorem le_max_of_le {l m : LedgerNumber} (h : l ≤ m) (n : LedgerNumber) : l ≤ max m n := by
  change l ≤ if m ≤ n then n else m
  split
  · rename_i hle
    exact UInt32.le_trans h hle
  · exact h

end LedgerNumber
end LedgerFeed
