import LedgerFeed.Proofs.Shape

/-! What becomes of a node's answer. A status that is no success decides alone. Behind a good one,
an error is passed on with its code and its message if the result that stands beside it can be read,
and without an error the result is what the call gives. A result of another shape makes the whole
answer unreadable, and then the error is lost. -/

namespace LedgerFeed

open Json (Value)
open Json.Value

namespace Json.Value

def IsError (v : Value) (code : Int64) (message : String) : Prop :=
  Places ["code", "message"] v [some (.integer code.toInt), some (.string message)]

theorem int64?_eq_some_iff {v : Value} {n : Int64} : v.int64? = some n ↔ v = .integer n.toInt := by
  cases v with
  | integer i =>
    simp only [int64?, Option.ite_none_right_eq_some, Option.some.injEq, integer.injEq,
      Int64.toInt_minValue, Int64.toInt_maxValue]
    constructor
    · rintro ⟨⟨hmin, hmax⟩, rfl⟩
      exact (Int64.toInt_ofInt_of_le hmin (Int.lt_of_le_sub_one hmax)).symm
    · rintro rfl
      exact ⟨⟨n.le_toInt, Int.le_sub_one_of_lt n.toInt_lt⟩, n.ofInt_toInt⟩
  | null | bool | real | string | array | object | undenoted => simp [int64?]

theorem text?_eq_some_iff {v : Value} {s : String} : v.text? = some s ↔ v = .string s := by
  cases v <;> simp [text?]

end Json.Value

namespace RpcCall

variable {call : RpcCall} {body : Option ByteArray} {result error : Option Value} {v : Value}
  {code : Int64} {message : String}

theorem errorObject?_eq_some_iff :
    errorObject? v = some (code, message) ↔ v.IsError code message := by
  have hrecord := @record?_eq_some_iff ["code", "message"] v
  unfold errorObject? IsError
  cases h : v.record? [["code"], ["message"]] with
  | none =>
    refine ⟨nofun, fun hplaces => ?_⟩
    cases h.symm.trans (hrecord.mpr hplaces)
  | some values =>
    rw [← hrecord]
    match values, (hrecord.mp h).length_eq with
    | [c, m], _ =>
      cases c <;> cases m <;>
        simp [h, required, int64?_eq_some_iff, text?_eq_some_iff, Option.bind_eq_some_iff]

def Bears (body : Option ByteArray) (result error : Option Value) : Prop :=
  ∃ bytes members, body = some bytes ∧ Json.ofBytes? bytes = some (.object members) ∧
    At members "result" result ∧ At members "error" error

/-- A result that does not keep an answer from being read: one of the call's shape, null or none. -/
def Admits (call : RpcCall) (result : Option Value) : Prop :=
  ∀ v, result = some v → v = .null ∨ call.Shaped v

theorem Bears.answer? (h : Bears body result error) (call : RpcCall) :
    (body.bind Json.ofBytes?).bind call.answer? =
      (Value.optional none (nullable? call.result?) result).bind fun result =>
        (Value.optional none (nullable? errorObject?) error).bind fun error =>
          some (result, error) := by
  obtain ⟨bytes, members, rfl, hread, hresult, herror⟩ := h
  have hrecord : (object members).record? [["result"], ["error"]] = some [result, error] :=
    (@record?_eq_some_iff ["result", "error"] _ _).mpr (.object (.cons hresult (.cons herror .nil)))
  simp only [Option.bind_some, hread, RpcCall.answer?, hrecord]
  rfl

/-! What stands in the place of a result or of an error. -/

theorem optional_nullable? {α : Type} {read : Value → Option α} (hv : v ≠ .null) :
    Value.optional none (nullable? read) (some v) = (read v).map some := by
  cases v <;> first | rfl | exact absurd rfl hv

theorem optional_silent {α : Type} (read : Value → Option α) {x : Option Value}
    (h : ∀ v, x = some v → v = .null) :
    Value.optional none (nullable? read) x = some none := by
  cases x with
  | none => rfl
  | some v =>
    obtain rfl := h v rfl
    rfl

theorem isSome_optional_result? :
    (Value.optional none (nullable? call.result?) result).isSome ↔ call.Admits result := by
  cases result with
  | none => exact ⟨fun _ => nofun, fun _ => rfl⟩
  | some v =>
    refine (isSome_nullable? call.isSome_result? v).trans ?_
    simp [Admits, IsNullOr]

theorem ne_null_of_isError (h : v.IsError code message) : v ≠ .null := by
  rintro rfl
  cases h

theorem Bears.ofBody_of_not_admits (h : Bears body result error) (hresult : ¬call.Admits result) :
    call.ofBody body = .error (.invalid "error decoding response body") := by
  have hnone : Value.optional none (nullable? call.result?) result = none := by
    rwa [← Option.not_isSome_iff_eq_none, isSome_optional_result?]
  rw [ofBody, h.answer? call, hnone]
  rfl

theorem Bears.ofBody_of_isError (h : Bears body result (some v)) (hv : v.IsError code message)
    (hresult : call.Admits result) : call.ofBody body = .error (.rpc code message) := by
  obtain ⟨r, hr⟩ := Option.isSome_iff_exists.mp (isSome_optional_result?.mpr hresult)
  rw [ofBody, h.answer? call, hr, optional_nullable? (ne_null_of_isError hv),
    errorObject?_eq_some_iff.mpr hv]
  rfl

theorem Bears.ofBody_of_shaped (h : Bears body (some v) error)
    (herror : ∀ e, error = some e → e = .null) (hv : v ≠ .null) (hshaped : call.Shaped v) :
    ∃ r, call.result? v = some r ∧ call.ofBody body = .ok r := by
  obtain ⟨r, hr⟩ := Option.isSome_iff_exists.mp ((call.isSome_result? v).mpr hshaped)
  refine ⟨r, hr, ?_⟩
  rw [ofBody, h.answer? call, optional_nullable? hv, hr, optional_silent _ herror]
  rfl

theorem Bears.ofBody_of_silent (h : Bears body result error)
    (herror : ∀ e, error = some e → e = .null) (hresult : ∀ v, result = some v → v = .null) :
    call.ofBody body = .error (.invalid s!"{call.method} returned no result") := by
  rw [ofBody, h.answer? call, optional_silent _ hresult, optional_silent _ herror]
  rfl

end RpcCall

open RpcCall

/-- A status that is no success decides alone. Behind a success, an error reaches the caller with
its code and its message just if what stands in the result's place can be read, be it of the call's
shape, null or nothing; and without an error, or with null in its place, a call gives its result if
there is one of its shape, and is invalid otherwise. -/
theorem errors_outweigh_readable_results (c : RpcClient) (call : RpcCall) :
    (∀ status body, ¬(200 ≤ status ∧ status < 300) →
      c.conclude call (.answered status body) = .error (.http status)) ∧
    ∀ status body result error, 200 ≤ status → status < 300 → Bears body result error →
      (∀ e code message, error = some e → e.IsError code message →
        (call.Admits result →
          c.conclude call (.answered status body) = .error (.rpc code message)) ∧
        (¬call.Admits result → c.conclude call (.answered status body) =
          .error (.invalid "error decoding response body"))) ∧
      ((∀ e, error = some e → e = .null) →
        (∀ v, result = some v → v ≠ .null → call.Shaped v →
          ∃ r, call.result? v = some r ∧ c.conclude call (.answered status body) = .ok r) ∧
        ((¬∃ v, result = some v ∧ v ≠ .null ∧ call.Shaped v) →
          ∃ cause, c.conclude call (.answered status body) = .error (.invalid cause))) := by
  refine ⟨fun status body hstatus => if_neg hstatus, ?_⟩
  intro status body result error hmin hmax hbears
  have hbody : c.conclude call (.answered status body) = call.ofBody body := if_pos ⟨hmin, hmax⟩
  rw [hbody]
  refine ⟨?_, fun herror => ⟨?_, fun hnone => ?_⟩⟩
  · rintro e code message rfl he
    exact ⟨hbears.ofBody_of_isError he, hbears.ofBody_of_not_admits⟩
  · rintro v rfl hv hshaped
    exact hbears.ofBody_of_shaped herror hv hshaped
  · by_cases hadmits : call.Admits result
    · refine ⟨_, hbears.ofBody_of_silent herror fun v hv => ?_⟩
      by_contra hnull
      exact hnone ⟨v, hv, hnull, (hadmits v hv).resolve_left hnull⟩
    · exact ⟨_, hbears.ofBody_of_not_admits hadmits⟩

/-! An answer that was written by a node. -/

theorem bears_print {members : List (String × Value)} (hplain : ∀ m ∈ members, m.2.Plain)
    {result error : Option Value} (hresult : At members "result" result)
    (herror : At members "error" error) :
    Bears (some (object members).print.toUTF8) result error :=
  ⟨_, members, rfl, (Json.ofBytes?_toUTF8 _).trans (Json.read?_print (plain_object hplain)),
    hresult, herror⟩

def refusal : Value :=
  .object [("code", .integer (-32600)), ("message", .string "startLedger must be positive")]

theorem refusal_isError : refusal.IsError (-32600) "startLedger must be positive" := by
  refine .object (.cons ?_ (.cons ?_ .nil)) <;> simp [At]

theorem plain_refusal : refusal.Plain := by
  refine plain_object ?_
  simp

def refused (result : Value) : Option ByteArray :=
  some (object [("error", refusal), ("result", result)]).print.toUTF8

theorem bears_refused {result : Value} (h : result.Plain) :
    Bears (refused result) (some result) (some refusal) := by
  refine bears_print ?_ ?_ ?_
  · simp [h, plain_refusal]
  · simp [At]
  · simp [At]

theorem refusal_outweighs_null :
    (200 : UInt16) ≤ 200 ∧ (200 : UInt16) < 300 ∧
      Bears (refused .null) (some .null) (some refusal) ∧
      refusal.IsError (-32600) "startLedger must be positive" ∧
      RpcCall.health.Admits (some .null) ∧
      RpcClient.conclude ⟨"http://node", 5⟩ .health (.answered 200 (refused .null)) =
        .error (.rpc (-32600) "startLedger must be positive") := by
  have hbears := bears_refused plain_null
  have hadmits : RpcCall.health.Admits (some .null) := fun v hv => .inl (Option.some.inj hv).symm
  have h := (errors_outweigh_readable_results ⟨"http://node", 5⟩ .health).2 200 (refused .null) _ _
    (by decide) (by decide) hbears
  exact ⟨by decide, by decide, hbears, refusal_isError, hadmits,
    (h.1 refusal _ _ rfl refusal_isError).1 hadmits⟩

/-- It is not so that an error always reaches the caller: here an empty object stands in the
result's place. -/
theorem error_lost_beside_result :
    ¬∀ (c : RpcClient) (call : RpcCall) (status : UInt16) (body : Option ByteArray)
      (result : Option Value) (e : Value) (code : Int64) (message : String),
      200 ≤ status → status < 300 → Bears body result (some e) → e.IsError code message →
        c.conclude call (.answered status body) = .error (.rpc code message) := by
  intro h
  have hplain : (Value.object []).Plain := plain_object (by simp)
  have hbears := bears_refused hplain
  have hresult : ¬RpcCall.health.Admits (some (.object [])) := by
    rw [← isSome_optional_result?]
    decide
  have hrpc := h ⟨"http://node", 5⟩ .health 200 _ _ _ _ _ (by decide) (by decide) hbears
    refusal_isError
  have hbody :
      RpcClient.conclude ⟨"http://node", 5⟩ .health (.answered 200 (refused (.object []))) =
        RpcCall.health.ofBody (refused (.object [])) := rfl
  rw [hbody, hbears.ofBody_of_not_admits hresult] at hrpc
  cases hrpc

end LedgerFeed
