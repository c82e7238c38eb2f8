import LedgerFeed.Event.Wire
import LedgerFeed.Proofs.Spelling

/-! What is printed against what is read: a value is read back from its text, an event from its
line, and a list of events from its output. -/

namespace LedgerFeed

namespace Json

/-! From the text of a value to its tokens. -/

/-- The lexer finds the tokens in their spelling, whatever follows. -/
def Lexed (ts : List Token) : Prop :=
  ∀ rest, Ends rest →
    tokens? (ts.flatMap Token.chars ++ rest) = (tokens? rest).map (ts ++ ·)

namespace Lexed

variable {ts us : List Token} {t : Token}

theorem nil : Lexed [] := by
  intro rest _
  simp

theorem cons (ht : t.Plain) (hmark : ∀ n, t ≠ .integer n) (h : Lexed ts) : Lexed (t :: ts) := by
  intro rest hrest
  rw [List.flatMap_cons, List.append_assoc,
    Token.tokens?_chars_append ht fun n hn => absurd hn (hmark n), h rest hrest, Option.map_map]
  rfl

theorem single (ht : t.Plain) : Lexed [t] := by
  intro rest hrest
  rw [List.flatMap_singleton, Token.tokens?_chars_append ht fun _ _ => hrest]
  rfl

theorem append (h : Lexed ts) (ht : t ∈ [Token.comma, .closeArray, .closeObject]) (h' : Lexed us) :
    Lexed (ts ++ t :: us) := by
  have hplain : t.Plain := by
    simp only [List.mem_cons, List.not_mem_nil, or_false] at ht
    rcases ht with rfl | rfl | rfl <;> trivial
  have hmark : ∀ n, t ≠ .integer n := by
    rintro n rfl
    simp at ht
  have hends (cs : List Char) : Ends (t.chars ++ cs) := by
    simp only [List.mem_cons, List.not_mem_nil, or_false] at ht
    rcases ht with rfl | rfl | rfl <;> rintro c ⟨⟩ <;> decide
  intro rest hrest
  have hends' : Ends ((t :: us).flatMap Token.chars ++ rest) := by
    rw [List.flatMap_cons, List.append_assoc]
    exact hends _
  rw [List.flatMap_append, List.append_assoc, h _ hends', h'.cons hplain hmark rest hrest,
    Option.map_map]
  simp [Function.comp_def]

end Lexed

/-- A value without numbers that are no integers, and with Unicode for all its texts. -/
def Value.Plain (v : Value) : Prop :=
  ∀ t ∈ v.tokens, t.Plain

mutual

theorem Value.lexed : (v : Value) → v.Plain → Lexed v.tokens
  | .null, h | .bool _, h | .integer _, h | .real _, h | .string _, h | .undenoted, h =>
    .single (h _ (List.mem_singleton_self _))
  | .array items, h => by
    have hitems : Lexed (itemTokens items) :=
      lexed_itemTokens items fun t ht => h t (by simp [Value.tokens, ht])
    exact (hitems.append (t := .closeArray) (by decide) .nil).cons trivial nofun
  | .object fields, h => by
    have hfields : Lexed (fieldTokens fields) :=
      lexed_fieldTokens fields fun t ht => h t (by simp [Value.tokens, ht])
    exact (hfields.append (t := .closeObject) (by decide) .nil).cons trivial nofun

theorem lexed_itemTokens : (items : List Value) → (∀ t ∈ itemTokens items, t.Plain) →
    Lexed (itemTokens items)
  | [], _ => .nil
  | [v], h => v.lexed h
  | v :: w :: rest, h => by
    have hv : Lexed v.tokens := v.lexed fun t ht => h t (by simp [itemTokens, ht])
    have hrest : Lexed (itemTokens (w :: rest)) :=
      lexed_itemTokens (w :: rest) fun t ht => h t (by simp [itemTokens, ht])
    exact hv.append (by decide) hrest

theorem lexed_fieldTokens : (fields : List (String × Value)) →
    (∀ t ∈ fieldTokens fields, t.Plain) → Lexed (fieldTokens fields)
  | [], _ => .nil
  | [(k, v)], h => by
    have hv : Lexed v.tokens := v.lexed fun t ht => h t (by simp [fieldTokens, ht])
    exact (hv.cons (t := .colon) trivial nofun).cons (t := .string (some k)) trivial nofun
  | (k, v) :: f :: rest, h => by
    have hv : Lexed v.tokens := v.lexed fun t ht => h t (by simp [fieldTokens, ht])
    have hrest : Lexed (fieldTokens (f :: rest)) :=
      lexed_fieldTokens (f :: rest) fun t ht => h t (by simp [fieldTokens, ht])
    have hboth : Lexed (v.tokens ++ .comma :: fieldTokens (f :: rest)) :=
      hv.append (by decide) hrest
    exact (hboth.cons (t := .colon) trivial nofun).cons (t := .string (some k)) trivial nofun

end

/-! From the tokens of a value to the value. -/

theorem Value.exists_tokens_eq (v : Value) : ∃ t ts, v.tokens = t :: ts ∧ t ≠ .closeArray := by
  cases v <;> exact ⟨_, _, rfl, nofun⟩

theorem exists_itemTokens_eq {items : List Value} (h : items ≠ []) :
    ∃ t ts, itemTokens items = t :: ts ∧ t ≠ .closeArray := by
  match items, h with
  | [v], _ => exact v.exists_tokens_eq
  | v :: w :: rest, _ =>
    obtain ⟨t, ts, htokens, ht⟩ := v.exists_tokens_eq
    exact ⟨t, _, by rw [itemTokens, htokens, List.cons_append], ht⟩

theorem step_firstItem {t : Token} (ht : t ≠ .closeArray) (stack : List Frame) :
    Reader.step (.firstItem stack) t = Reader.step (.value (.array [] :: stack)) t := by
  cases t <;> first | rfl | contradiction

namespace Reader

@[simp] theorem step_key (fields : List (Option String × Value)) (k : Option String)
    (stack : List Frame) :
    step (.key fields stack) (.string k) = some (.colon fields k stack) := by
  cases fields <;> rfl

@[simp] theorem step_colon (fields : List (Option String × Value)) (k : Option String)
    (stack : List Frame) :
    step (.colon fields k stack) .colon = some (.value (.object fields k :: stack)) := rfl

@[simp] theorem step_comma_array (v : Value) (items : List Value) (stack : List Frame) :
    step (.after v (.array items :: stack)) .comma =
      some (.value (.array (v :: items) :: stack)) := rfl

@[simp] theorem step_closeArray (v : Value) (items : List Value) (stack : List Frame) :
    step (.after v (.array items :: stack)) .closeArray =
      some (.after (.array (v :: items).reverse) stack) := rfl

@[simp] theorem step_comma_object (v : Value) (fields : List (Option String × Value))
    (k : Option String) (stack : List Frame) :
    step (.after v (.object fields k :: stack)) .comma =
      some (.key ((k, v) :: fields) stack) := rfl

@[simp] theorem step_closeObject (v : Value) (fields : List (Option String × Value))
    (k : Option String) (stack : List Frame) :
    step (.after v (.object fields k :: stack)) .closeObject =
      some (.after (objectOf ((k, v) :: fields)) stack) := rfl

end Reader

theorem mapM_eq_some_map {α β : Type} {f : α → Option β} {g : α → β} {l : List α}
    (h : ∀ a ∈ l, f a = some (g a)) : l.mapM f = some (l.map g) := by
  induction l with
  | nil => rfl
  | cons a l ih => simp [h a, ih fun b hb => h b (List.mem_cons_of_mem a hb)]

theorem mapM_map_eq_some {α β : Type} {write : α → β} {read : β → Option α}
    (h : ∀ a, read (write a) = some a) (l : List α) : (l.map write).mapM read = some l := by
  have hitems := mapM_eq_some_map (f := read ∘ write) (g := id) (l := l) fun a _ => h a
  rw [List.mapM_map, hitems, List.map_id]

@[simp] def denoted (f : String × Value) : Option String × Value := (some f.1, f.2)

theorem objectOf_denoted (fields : List (String × Value)) :
    objectOf (fields.map denoted).reverse = .object fields := by
  have hfields : (fields.map denoted).mapM
      (fun f : Option String × Value => f.1.map (·, f.2)) = some fields := by
    apply mapM_map_eq_some
    exact fun _ => rfl
  rw [objectOf, List.reverse_reverse, hfields]

mutual

theorem Value.foldlM_tokens : (v : Value) → (stack : List Frame) →
    v.tokens.foldlM Reader.step (.value stack) = some (.after v stack)
  | .null, _ | .bool _, _ | .integer _, _ | .real _, _ | .string _, _ | .undenoted, _ => rfl
  | .array [], _ => rfl
  | .array (v :: items), stack => by
    have hne : v :: items ≠ [] := nofun
    obtain ⟨t, ts, htokens, ht⟩ := exists_itemTokens_eq hne
    have hitems := foldlM_itemTokens (v :: items) nofun [] stack
    rw [htokens, List.cons_append, List.foldlM_cons, ← step_firstItem ht, ← List.foldlM_cons,
      ← List.cons_append, ← htokens] at hitems
    exact hitems
  | .object [], _ => rfl
  | .object (f :: fields), stack => foldlM_fieldTokens (f :: fields) nofun [] stack

theorem foldlM_itemTokens : (items : List Value) → items ≠ [] → (done : List Value) →
    (stack : List Frame) →
    (itemTokens items ++ [Token.closeArray]).foldlM Reader.step (.value (.array done :: stack)) =
      some (.after (.array (done.reverse ++ items)) stack)
  | [v], _, done, stack => by
    rw [itemTokens, List.foldlM_append, v.foldlM_tokens]
    simp
  | v :: w :: items, _, done, stack => by
    have hrest := foldlM_itemTokens (w :: items) nofun (v :: done) stack
    rw [itemTokens, List.append_assoc, List.foldlM_append, v.foldlM_tokens]
    simpa using hrest

theorem foldlM_fieldTokens : (fields : List (String × Value)) → fields ≠ [] →
    (done : List (String × Value)) → (stack : List Frame) →
    (fieldTokens fields ++ [Token.closeObject]).foldlM Reader.step
        (.key (done.map denoted).reverse stack) =
      some (.after (.object (done ++ fields)) stack)
  | [(k, v)], _, done, stack => by
    have hclosed := objectOf_denoted (done ++ [(k, v)])
    rw [List.map_append, List.reverse_append] at hclosed
    simpa [fieldTokens, List.foldlM_append, v.foldlM_tokens] using hclosed
  | (k, v) :: f :: fields, _, done, stack => by
    have hrest := foldlM_fieldTokens (f :: fields) nofun (done ++ [(k, v)]) stack
    rw [List.map_append, List.reverse_append] at hrest
    simpa [fieldTokens, List.foldlM_append, v.foldlM_tokens] using hrest

end

theorem ofTokens?_tokens (v : Value) : ofTokens? v.tokens = some v := by
  rw [ofTokens?, v.foldlM_tokens]

/-- A value is read back from its text. -/
theorem read?_print {v : Value} (h : v.Plain) : read? v.print = some v := by
  have htokens : tokens? (v.tokens.flatMap Token.chars) = some v.tokens := by
    have hnil : tokens? [] = some [] := by rw [tokens?]; rfl
    simpa [hnil] using v.lexed h [] ends_nil
  rw [read?, Value.print, String.toList_ofList, htokens]
  exact ofTokens?_tokens v

/-! Plain values. -/

theorem plain_itemTokens : (items : List Value) → (∀ v ∈ items, v.Plain) →
    ∀ t ∈ itemTokens items, t.Plain
  | [], _ => nofun
  | [v], h => h v (List.mem_singleton_self v)
  | v :: w :: rest, h => by
    have hv : v.Plain := h v (List.mem_cons_self ..)
    have hrest := plain_itemTokens (w :: rest) fun u hu => h u (List.mem_cons_of_mem _ hu)
    simp only [itemTokens, List.mem_append, List.mem_cons]
    rintro t (ht | rfl | ht)
    · exact hv t ht
    · trivial
    · exact hrest t ht

theorem plain_fieldTokens : (fields : List (String × Value)) → (∀ f ∈ fields, f.2.Plain) →
    ∀ t ∈ fieldTokens fields, t.Plain
  | [], _ => nofun
  | [(k, v)], h => by
    have hv : v.Plain := h (k, v) (List.mem_singleton_self _)
    simp only [fieldTokens, List.mem_cons]
    rintro t (rfl | rfl | ht)
    · trivial
    · trivial
    · exact hv t ht
  | (k, v) :: f :: rest, h => by
    have hv : v.Plain := h (k, v) (List.mem_cons_self ..)
    have hrest := plain_fieldTokens (f :: rest) fun u hu => h u (List.mem_cons_of_mem _ hu)
    simp only [fieldTokens, List.mem_append, List.mem_cons]
    rintro t ((rfl | rfl | ht) | rfl | ht)
    · trivial
    · trivial
    · exact hv t ht
    · trivial
    · exact hrest t ht

namespace Value

theorem plain_array {items : List Value} (h : ∀ v ∈ items, v.Plain) : (array items).Plain := by
  have hitems := plain_itemTokens items h
  simp only [Plain, tokens, List.mem_append, List.mem_cons, List.not_mem_nil, or_false]
  rintro t ((rfl | ht) | rfl)
  · trivial
  · exact hitems t ht
  · trivial

theorem plain_object {fields : List (String × Value)} (h : ∀ f ∈ fields, f.2.Plain) :
    (object fields).Plain := by
  have hfields := plain_fieldTokens fields h
  simp only [Plain, tokens, List.mem_append, List.mem_cons, List.not_mem_nil, or_false]
  rintro t ((rfl | ht) | rfl)
  · trivial
  · exact hfields t ht
  · trivial

@[simp] theorem plain_null : null.Plain := by simp [Plain, tokens, Token.Plain]

@[simp] theorem plain_bool (b : Bool) : (bool b).Plain := by simp [Plain, tokens, Token.Plain]

@[simp] theorem plain_integer (n : Int) : (integer n).Plain := by
  simp [Plain, tokens, Token.Plain]

@[simp] theorem plain_string (s : String) : (string s).Plain := by
  simp [Plain, tokens, Token.Plain]

theorem newline_not_mem_print {v : Value} (h : v.Plain) : '\n' ∉ v.print.toList := by
  rw [print, String.toList_ofList, List.mem_flatMap]
  rintro ⟨t, ht, hnewline⟩
  exact Token.newline_not_mem_chars (h t ht) hnewline

end Value

namespace Value

/-! Records. -/

theorem filter_key_eq {fields : List (String × Value)} (h : (fields.map Prod.fst).Nodup)
    {f : String × Value} (hf : f ∈ fields) : fields.filter (·.1 = f.1) = [f] := by
  induction fields with
  | nil => cases hf
  | cons g fields ih =>
    rw [List.map_cons, List.nodup_cons] at h
    obtain ⟨hfresh, hnodup⟩ := h
    rcases List.mem_cons.mp hf with rfl | hf
    · have hothers : fields.filter (·.1 = f.1) = [] := by
        rw [List.filter_eq_nil_iff]
        intro g hg hkey
        exact hfresh (List.mem_map.mpr ⟨g, hg, of_decide_eq_true hkey⟩)
      rw [List.filter_cons_of_pos (by simp), hothers]
    · have hne : g.1 ≠ f.1 := fun hkey => hfresh (List.mem_map.mpr ⟨f, hf, hkey.symm⟩)
      rw [List.filter_cons_of_neg (by simpa using hne), ih hnodup hf]

theorem record?_object {fields : List (String × Value)} (h : (fields.map Prod.fst).Nodup) :
    (object fields).record? (fields.map ([·.1])) = some (fields.map (some ·.2)) := by
  rw [record?, recordIn?, List.mapM_map]
  refine mapM_eq_some_map fun f hf => ?_
  have hcontains :
      (fun g : String × Value => [f.1].contains g.1) = fun g => decide (g.1 = f.1) := by
    funext g
    simp
  simp only [Function.comp_apply, hcontains, filter_key_eq h hf]

/-! Fields. -/

@[simp] theorem uint32?_ofUInt32 (n : UInt32) : (ofUInt32 n).uint32? = some n := by
  have hsize := n.toNat_lt_size
  simp [ofUInt32, uint32?, hsize]

@[simp] theorem list?_ofTexts (texts : List String) :
    (ofTexts texts).list? text? = some texts :=
  mapM_map_eq_some (fun text => (rfl : (string text).text? = some text)) texts

@[simp] theorem nullable?_ofOption (text : Option String) :
    (ofOption .string text).nullable? text? = some text := by
  cases text <;> rfl

@[simp] theorem plain_ofUInt32 (n : UInt32) : (ofUInt32 n).Plain := plain_integer _

@[simp] theorem plain_ofTexts (texts : List String) : (ofTexts texts).Plain := by
  refine plain_array fun v hv => ?_
  obtain ⟨text, -, rfl⟩ := List.mem_map.mp hv
  exact plain_string text

@[simp] theorem plain_ofOption (text : Option String) : (ofOption .string text).Plain := by
  cases text <;> simp [ofOption]

end Value
end Json

open Json (Value)

namespace ContractEvent

theorem plain_toJson (e : ContractEvent) : e.toJson.Plain := by
  apply Value.plain_object
  simp [EventType.toJson]

theorem ofJson?_toJson (e : ContractEvent) : ofJson? e.toJson = some e := by
  have hrecord : e.toJson.record?
      [["id"], ["event_type"], ["ledger"], ["ledger_closed_at"], ["contract_id"], ["topics"],
        ["value"], ["in_successful_contract_call"], ["tx_hash"]] =
      some [some (.string e.id), some e.eventType.toJson, some (Value.ofUInt32 e.ledger),
        some (.string e.ledgerClosedAt), some (Value.ofOption .string e.contractId),
        some (Value.ofTexts e.topics), some (.string e.value),
        some (.bool e.inSuccessfulContractCall), some (.string e.txHash)] :=
    Value.record?_object (by simp)
  rw [ofJson?, hrecord]
  simp [Value.required, Value.optional, Value.text?, Value.bool?, EventType.toJson,
    EventType.ofValue?]

def ofLine? (line : List Char) : Option ContractEvent :=
  (Json.read? (String.ofList line)).bind ofJson?

theorem ofLine?_line (e : ContractEvent) : ofLine? e.line.toList = some e := by
  rw [ofLine?, String.ofList_toList, line, Json.read?_print e.plain_toJson, Option.bind_some,
    ofJson?_toJson]

theorem newline_not_mem_line (e : ContractEvent) : '\n' ∉ e.line.toList :=
  Value.newline_not_mem_print e.plain_toJson

theorem line_ne_nil (e : ContractEvent) : e.line.toList ≠ [] := by
  simp [line, toJson, Value.print, Value.tokens, Json.Token.chars]

def output (events : List ContractEvent) : String :=
  String.join (events.map printed)

theorem intercalate_append_nil (c : Char) (lines : List (List Char)) :
    [c].intercalate (lines ++ [[]]) = lines.flatMap (· ++ [c]) := by
  induction lines with
  | nil => rfl
  | cons line lines ih =>
    obtain ⟨next, more, hnext⟩ := List.exists_cons_of_ne_nil (l := lines ++ [[]]) (by simp)
    rw [List.cons_append, hnext, List.intercalate_cons_cons, ← hnext, ih, List.flatMap_cons]

theorem splitOn_output (events : List ContractEvent) :
    (output events).toList.splitOn '\n' = events.map (·.line.toList) ++ [[]] := by
  have hlines : (output events).toList =
      ['\n'].intercalate (events.map (·.line.toList) ++ [[]]) := by
    rw [intercalate_append_nil, output, String.toList_join, List.flatMap_map, List.flatMap_map]
    simp [printed]
  rw [hlines]
  apply List.splitOn_intercalate
  · simp only [List.mem_append, List.mem_map, List.mem_singleton]
    rintro _ (⟨e, -, rfl⟩ | rfl)
    · exact e.newline_not_mem_line
    · exact List.not_mem_nil
  · simp

/-- The output for a list of events has one line for each of them, and these lines are read back as
the events. -/
theorem output_reads_back (events : List ContractEvent) :
    let lines := ((output events).toList.splitOn '\n').filter (· ≠ [])
    lines.length = events.length ∧ lines.mapM ofLine? = some events := by
  have hlines : ((output events).toList.splitOn '\n').filter (· ≠ []) =
      events.map (·.line.toList) := by
    have hnonempty : ∀ line ∈ events.map (·.line.toList), decide (line ≠ []) = true := by
      intro line hline
      obtain ⟨e, -, rfl⟩ := List.mem_map.mp hline
      exact decide_eq_true e.line_ne_nil
    rw [splitOn_output, List.filter_append, List.filter_eq_self.mpr hnonempty]
    exact List.append_nil _
  rw [hlines]
  exact ⟨List.length_map .., Json.mapM_map_eq_some ofLine?_line events⟩

end ContractEvent
end LedgerFeed
