import Mathlib.Data.List.Forall2
import LedgerFeed.Node.Rpc
import LedgerFeed.Proofs.Forms

/-! The shapes of what nodes send. A record says of each of its fields whether it may be left out
and what may stand in it; an object has no such field twice, and an array gives them by position.
What has the shape of a record is just what is read as one. -/

namespace LedgerFeed

namespace Json

structure Field where
  name : String
  optional : Bool
  fits : Value → Prop

inductive Field.Met (f : Field) : Option Value → Prop
  | given {v : Value} (h : f.fits v) : f.Met (some v)
  | leftOut (h : f.optional = true) : f.Met none

namespace Value

/-- What a name stands for among members, none of which has this name but perhaps one. -/
def At (members : List (String × Value)) (name : String) (v : Option Value) : Prop :=
  (members.filter fun m => m.1 = name) = v.toList.map (name, ·)

inductive Places (names : List String) : Value → List (Option Value) → Prop
  | object {members : List (String × Value)} {values : List (Option Value)}
      (h : List.Forall₂ (At members) names values) : Places names (.object members) values
  | array {items : List Value} (h : items.length ≤ names.length) :
      Places names (.array items)
        (items.map some ++ List.replicate (names.length - items.length) none)

def IsRecord (fields : List Field) (v : Value) : Prop :=
  ∃ values, Places (fields.map Field.name) v values ∧ List.Forall₂ Field.Met fields values

def IsText (v : Value) : Prop :=
  ∃ s, v = .string s

def IsFlag (v : Value) : Prop :=
  ∃ b, v = .bool b

def IsWord (v : Value) : Prop :=
  ∃ n : UInt32, v = .integer n.toNat

def IsList (item : Value → Prop) (v : Value) : Prop :=
  ∃ items, v = .array items ∧ ∀ w ∈ items, item w

def IsNullOr (item : Value → Prop) (v : Value) : Prop :=
  v = .null ∨ item v

end Value
end Json

open Json (Value Field)
open Json.Value

def RawEvent.fields : List Field :=
  [ ⟨"type", false, IsText⟩, ⟨"ledger", false, IsWord⟩, ⟨"ledgerClosedAt", true, IsText⟩,
    ⟨"contractId", true, IsText⟩, ⟨"id", false, IsText⟩, ⟨"topic", true, IsList IsText⟩,
    ⟨"value", true, IsText⟩, ⟨"inSuccessfulContractCall", true, IsFlag⟩,
    ⟨"txHash", true, IsText⟩ ]

def RawLedger.fields : List Field :=
  [ ⟨"sequence", false, IsWord⟩, ⟨"hash", true, IsText⟩, ⟨"ledgerCloseTime", true, IsText⟩,
    ⟨"metadataXdr", true, IsText⟩, ⟨"events", true, IsList (IsRecord RawEvent.fields)⟩ ]

namespace RpcCall

def fields : RpcCall → List Field
  | health =>
    [ ⟨"status", false, IsText⟩, ⟨"latestLedger", false, IsWord⟩,
      ⟨"oldestLedger", false, IsWord⟩, ⟨"ledgerRetentionWindow", true, IsWord⟩ ]
  | events _ =>
    [ ⟨"events", true, IsList (IsRecord RawEvent.fields)⟩, ⟨"latestLedger", false, IsWord⟩,
      ⟨"cursor", true, IsNullOr IsText⟩ ]
  | ledgers _ =>
    [ ⟨"ledgers", true, IsList (IsRecord RawLedger.fields)⟩, ⟨"latestLedger", false, IsWord⟩,
      ⟨"oldestLedger", true, IsWord⟩ ]

def Shaped (call : RpcCall) (v : Value) : Prop :=
  IsRecord call.fields v

end RpcCall

namespace Json.Value

variable {α β : Type} {read : Value → Option α} {fits : Value → Prop} {name : String}
  {names : List String} {members : List (String × Value)} {v : Value} {x : Option Value}
  {values : List (Option Value)}

/-! What stands in the places of a record is what is read off it. -/

theorem field?_eq_some_iff : field? members [name] = some x ↔ At members name x := by
  have hfilter : (members.filter fun m => [name].contains m.1) =
      members.filter fun m => m.1 = name := by
    refine List.filter_congr fun m _ => ?_
    simp
  rw [field?, hfilter, At]
  have hname : ∀ m ∈ members.filter fun m => m.1 = name, m.1 = name := fun m hm =>
    of_decide_eq_true (List.mem_filter.mp hm).2
  generalize members.filter (fun m => m.1 = name) = found at hname
  cases found with
  | nil => cases x <;> simp
  | cons m rest =>
    cases rest with
    | nil =>
      obtain rfl := hname m (List.mem_singleton_self m)
      cases x with
      | none => simp
      | some w => simp [Prod.ext_iff]
    | cons => cases x <;> simp

theorem mapM_field?_eq_some_iff :
    (names.map ([·])).mapM (field? members) = some values ↔
      List.Forall₂ (At members) names values := by
  induction names generalizing values with
  | nil => simp [eq_comm]
  | cons name names ih =>
    rw [List.map_cons, List.mapM_cons, List.forall₂_cons_left_iff]
    simp only [Option.bind_eq_bind, Option.bind_eq_some_iff, Option.pure_def, Option.some.injEq,
      field?_eq_some_iff, ih]
    constructor
    · rintro ⟨x, hx, rest, hrest, rfl⟩
      exact ⟨x, rest, hx, hrest, rfl⟩
    · rintro ⟨x, rest, hx, hrest, rfl⟩
      exact ⟨x, hx, rest, hrest, rfl⟩

theorem record?_eq_some_iff :
    v.record? (names.map ([·])) = some values ↔ Places names v values := by
  cases v with
  | object members =>
    rw [record?, recordIn?_object, mapM_field?_eq_some_iff]
    refine ⟨.object, fun h => ?_⟩
    cases h with
    | object h => exact h
  | array items =>
    rw [record?, recordIn?, List.length_map]
    by_cases hle : items.length ≤ names.length
    · rw [if_pos (by simp [hle]), List.take_of_length_le hle, Option.some.injEq]
      refine ⟨fun h => h ▸ .array hle, fun h => ?_⟩
      cases h
      rfl
    · rw [if_neg (by simpa [Dialect.json] using hle)]
      constructor
      · intro h
        cases h
      · intro h
        cases h with
        | array h => exact absurd h hle
  | null | bool | integer | real | string | undenoted =>
    constructor
    · intro h
      cases h
    · intro h
      cases h

/-! Fields are as they are asked for just if they are read. -/

theorem met_some (f : Field) (v : Value) : f.Met (some v) ↔ f.fits v :=
  ⟨fun | .given h => h, .given⟩

theorem isSome_required (h : ∀ v, (read v).isSome ↔ fits v) (name : String) (x : Option Value) :
    (required read x).isSome ↔ (Field.mk name false fits).Met x := by
  cases x with
  | none => exact ⟨nofun, nofun⟩
  | some v => exact (h v).trans (met_some ⟨name, false, fits⟩ v).symm

theorem isSome_optional (h : ∀ v, (read v).isSome ↔ fits v) (name : String) (d : α)
    (x : Option Value) :
    (Value.optional d read x).isSome ↔ (Field.mk name true fits).Met x := by
  cases x with
  | none => exact ⟨fun _ => .leftOut rfl, fun _ => rfl⟩
  | some v => exact (h v).trans (met_some ⟨name, true, fits⟩ v).symm

theorem isSome_text? (v : Value) : v.text?.isSome ↔ v.IsText := by
  cases v <;> simp [text?, IsText]

theorem isSome_bool? (v : Value) : v.bool?.isSome ↔ v.IsFlag := by
  cases v <;> simp [bool?, IsFlag]

theorem isSome_uint32? (v : Value) : v.uint32?.isSome ↔ v.IsWord := by
  cases v with
  | integer n =>
    simp only [uint32?, Option.isSome_ite, IsWord, integer.injEq]
    constructor
    · rintro ⟨hpos, hlt⟩
      refine ⟨UInt32.ofNat n.toNat, ?_⟩
      rw [UInt32.toNat_ofNat_of_lt' hlt, Int.toNat_of_nonneg hpos]
    · rintro ⟨w, rfl⟩
      exact ⟨Int.natCast_nonneg _, w.toNat_lt_size⟩
  | null | bool | real | string | array | object | undenoted => simp [uint32?, IsWord]

theorem isSome_list? (h : ∀ v, (read v).isSome ↔ fits v) (v : Value) :
    (v.list? read).isSome ↔ v.IsList fits := by
  cases v with
  | array items =>
    have hitems : (items.mapM read).isSome ↔ ∀ w ∈ items, fits w := by
      induction items with
      | nil => simp
      | cons w items ih =>
        rw [List.mapM_cons, List.forall_mem_cons, ← h w, ← ih]
        cases read w <;> cases items.mapM read <;> simp
    simpa [list?, IsList] using hitems
  | null | bool | integer | real | string | object | undenoted => simp [list?, IsList]

theorem isSome_nullable? (h : ∀ v, (read v).isSome ↔ fits v) (v : Value) :
    (v.nullable? read).isSome ↔ v.IsNullOr fits := by
  cases v with
  | null => simp [nullable?, IsNullOr]
  | bool | integer | real | string | array | object | undenoted =>
    simp [nullable?, IsNullOr, h]

theorem isSome_bind {x : Option α} {f : α → Option β} {p q : Prop} (hx : x.isSome ↔ p)
    (hf : ∀ a, (f a).isSome ↔ q) : (x >>= f).isSome ↔ p ∧ q := by
  cases x with
  | none => simpa using fun hp => absurd (hx.mpr hp) (by simp)
  | some a => simpa [← hx] using hf a

theorem Places.length_eq (h : Places names v values) : values.length = names.length := by
  cases h with
  | object h => exact h.length_eq.symm
  | array h =>
    rw [List.length_append, List.length_map, List.length_replicate]
    omega

theorem isSome_record? (fields : List Field) {f : List (Option Value) → Option α}
    (h : ∀ values, values.length = fields.length →
      ((f values).isSome ↔ List.Forall₂ Field.Met fields values)) :
    (v.record? (fields.map ([·.name])) >>= f).isSome ↔ v.IsRecord fields := by
  have hnames : (fields.map ([·.name])) = (fields.map Field.name).map ([·]) := by
    rw [List.map_map]
    rfl
  rw [hnames, IsRecord]
  cases hrecord : v.record? ((fields.map Field.name).map ([·])) with
  | none =>
    refine ⟨nofun, fun ⟨values, hplaces, _⟩ => ?_⟩
    rw [record?_eq_some_iff.mpr hplaces] at hrecord
    cases hrecord
  | some values =>
    have hplaces := record?_eq_some_iff.mp hrecord
    have hlength : values.length = fields.length := by simpa using hplaces.length_eq
    refine (h values hlength).trans ⟨fun hmet => ⟨values, hplaces, hmet⟩, ?_⟩
    rintro ⟨values', hplaces', hmet⟩
    rw [record?_eq_some_iff.mpr hplaces'] at hrecord
    exact Option.some.inj hrecord ▸ hmet

end Json.Value

theorem RawEvent.isSome_ofJson? (v : Value) : (ofJson? v).isSome ↔ v.IsRecord fields := by
  refine isSome_record? fields fun values hlength => ?_
  match values, hlength with
  | [_, _, _, _, _, _, _, _, _], _ =>
    simp only [fields, List.forall₂_cons, List.forall₂_nil_left_iff]
    exact isSome_bind (isSome_required isSome_text? ..) fun _ =>
      isSome_bind (isSome_required isSome_uint32? ..) fun _ =>
      isSome_bind (isSome_optional isSome_text? ..) fun _ =>
      isSome_bind (isSome_optional isSome_text? ..) fun _ =>
      isSome_bind (isSome_required isSome_text? ..) fun _ =>
      isSome_bind (isSome_optional (isSome_list? isSome_text?) ..) fun _ =>
      isSome_bind (isSome_optional isSome_text? ..) fun _ =>
      isSome_bind (isSome_optional isSome_bool? ..) fun _ =>
      isSome_bind (isSome_optional isSome_text? ..) fun _ => iff_of_true rfl trivial

theorem RawLedger.isSome_ofJson? (v : Value) : (ofJson? v).isSome ↔ v.IsRecord fields := by
  refine isSome_record? fields fun values hlength => ?_
  match values, hlength with
  | [_, _, _, _, _], _ =>
    simp only [fields, List.forall₂_cons, List.forall₂_nil_left_iff]
    exact isSome_bind (isSome_required isSome_uint32? ..) fun _ =>
      isSome_bind (isSome_optional isSome_text? ..) fun _ =>
      isSome_bind (isSome_optional isSome_text? ..) fun _ =>
      isSome_bind (isSome_optional isSome_text? ..) fun _ =>
      isSome_bind (isSome_optional (isSome_list? RawEvent.isSome_ofJson?) ..) fun _ =>
      iff_of_true rfl trivial

theorem RpcCall.isSome_result? (call : RpcCall) (v : Value) :
    (call.result? v).isSome ↔ call.Shaped v := by
  cases call with
  | health =>
    refine isSome_record? (fields .health) fun values hlength => ?_
    match values, hlength with
    | [_, _, _, _], _ =>
      simp only [fields, List.forall₂_cons, List.forall₂_nil_left_iff]
      exact isSome_bind (isSome_required isSome_text? ..) fun _ =>
        isSome_bind (isSome_required isSome_uint32? ..) fun _ =>
        isSome_bind (isSome_required isSome_uint32? ..) fun _ =>
        isSome_bind (isSome_optional isSome_uint32? ..) fun _ => iff_of_true rfl trivial
  | events request =>
    refine isSome_record? (fields (.events request)) fun values hlength => ?_
    match values, hlength with
    | [_, _, _], _ =>
      simp only [fields, List.forall₂_cons, List.forall₂_nil_left_iff]
      -- the cursor is read before the tip
      exact isSome_bind (isSome_optional (isSome_list? RawEvent.isSome_ofJson?) ..) fun _ =>
        (isSome_bind (isSome_optional (isSome_nullable? isSome_text?) ..) fun _ =>
          isSome_bind (isSome_required isSome_uint32? ..) fun _ =>
          iff_of_true rfl trivial).trans and_left_comm
  | ledgers request =>
    refine isSome_record? (fields (.ledgers request)) fun values hlength => ?_
    match values, hlength with
    | [_, _, _], _ =>
      simp only [fields, List.forall₂_cons, List.forall₂_nil_left_iff]
      exact isSome_bind (isSome_optional (isSome_list? RawLedger.isSome_ofJson?) ..) fun _ =>
        isSome_bind (isSome_required isSome_uint32? ..) fun _ =>
        isSome_bind (isSome_optional isSome_uint32? ..) fun _ => iff_of_true rfl trivial

end LedgerFeed
