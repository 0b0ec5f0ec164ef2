import RawDuck.Attributes
import RawDuck.Recording

/-!
# RawDuck.Nesting

How deep `OtlpNormalizeValue` calls itself.  Its guard compares a depth that is
handed down from call to call, but the values of an `arrayValue` or a
`kvlistValue` are normalized from depth 0 on.

* `otlpStep` — one run of `OtlpNormalizeValue`, with the calls it makes as a
  parameter;
* `records_otlpStep` — the calls one run makes, and that its result is
  `otlpNormalizeValue`;
* `Made` — the calls made for a row, with the number of levels below the row and
  of the wrappers taken apart on the way;
* `made_level_le` — between two wrappers the guard bounds the levels;
* `made_level_bounded_iff` — the levels are bounded on exactly those rows on
  which the wrappers nested in one another are.
-/

namespace RawDuck

open Recording

/-! ## one run -/

/-- The arguments of a call of `OtlpNormalizeValue`. -/
structure OtlpCall where
  value : Json
  key : Bytes
  depth : Nat

/-- `yyjson_mut_obj_get`: the first member of that key, of an object. -/
def memberOf (key : Bytes) : Json → Option Json
  | .obj members => objGet key members
  | _ => none

/-- The elements of an array. -/
def arrayElements : Json → List Json
  | .arr elements => elements
  | _ => []

/-- An element of a KeyValue array with a name that is a string, and a value. -/
def keyValueOf (element : Json) : Option (Bytes × Json) :=
  match keyValueName element, memberOf (bytes "value") element with
  | some name, some value => some (name, value)
  | _, _ => none

section

variable (duck : Duck) {m : Type → Type} [Monad m] (self : OtlpCall → m Json)

/-- `OtlpUnwrapAnyValue`. -/
def otlpUnwrapStep : List (Bytes × Json) → m (Option Json)
  | [(name, inner)] =>
      if isPlainWrapper name then return some inner
      else if name = bytes "intValue" then return some (otlpIntValue duck inner)
      else if isListWrapper name then
        match memberOf (bytes "values") inner with
        | some values => do
            let normalized ← self ⟨values, [], 0⟩
            return some normalized
        | none => return none
      else return none
  | _ => return none

/-- One element of a KeyValue array that is spread into an object. -/
def otlpSpreadStep (depth : Nat) (object : List (Bytes × Json)) (element : Json) :
    m (List (Bytes × Json)) :=
  match keyValueOf element with
  | some (name, value) => do
      let normalized ← self ⟨value, [], depth + 1⟩
      return addMember object name normalized
  | none => return object

/-- `process_member` of `OtlpNormalizeObject`. -/
def otlpMemberStep (depth : Nat) (object : List (Bytes × Json)) (member : Bytes × Json) :
    m (List (Bytes × Json)) :=
  if isSpread member then (arrayElements member.2).foldlM (otlpSpreadStep self depth) object
  else do
    let normalized ← self ⟨member.2, member.1, depth + 1⟩
    return addMember object member.1 normalized

/-- One element of a bare KeyValue array. -/
def otlpKeyValueStep (depth : Nat) (converted : List (Bytes × Json)) (element : Json) :
    m (List (Bytes × Json)) :=
  match keyValueOf element with
  | some (name, value) => do
      let normalized ← self ⟨value, [], depth + 1⟩
      return converted ++ [(name, normalized)]
  | none => return converted

/-- `OtlpNormalizeValue`, with the calls it makes of itself. -/
def otlpStep (call : OtlpCall) : m Json :=
  if call.depth > rawMaxNesting then return call.value
  else match call.value with
    | .obj members => do
        match ← otlpUnwrapStep duck self members with
        | some unwrapped => return unwrapped
        | none =>
            let object ← members.foldlM (otlpMemberStep self (call.depth + 1)) []
            return .obj object
    | .arr elements =>
        if otlpIsKeyValueArray (.arr elements) then do
          let converted ← elements.foldlM (otlpKeyValueStep self call.depth) []
          return .obj converted
        else do
          let normalized ← elements.mapM fun element => self ⟨element, [], call.depth + 1⟩
          return .arr normalized
    | .str str => return otlpNormalizeString duck call.key str
    | value => return value

end

variable (duck : Duck)

/-- What a call returns. -/
def OtlpCall.result (call : OtlpCall) : Json :=
  otlpNormalizeValue duck call.value call.key call.depth

/-- One run, in which the calls are recorded. -/
def OtlpCall.run (call : OtlpCall) : Json × List OtlpCall :=
  outcome (otlpStep duck (fun nested => record nested (nested.result duck)) call)

/-! ## the calls of one run -/

/-- The call for an element of a KeyValue array, with the name it is for. -/
def keyValueCalls (depth : Nat) (element : Json) : List (Bytes × OtlpCall) :=
  match keyValueOf element with
  | some (name, value) => [(name, ⟨value, [], depth + 1⟩)]
  | none => []

/-- The calls for a member of an object, with the names they are for. -/
def memberCalls (depth : Nat) (member : Bytes × Json) : List (Bytes × OtlpCall) :=
  if isSpread member then (arrayElements member.2).flatMap (keyValueCalls depth)
  else [(member.1, ⟨member.2, member.1, depth + 1⟩)]

/-- The values of an `arrayValue` or a `kvlistValue`. -/
def wrappedValues : Json → Option Json
  | .obj [(name, inner)] => if isListWrapper name then memberOf (bytes "values") inner else none
  | _ => none

/-- The calls that one run makes. -/
def OtlpCall.nested (call : OtlpCall) : List OtlpCall :=
  if call.depth > rawMaxNesting then []
  else match call.value with
    | .obj members =>
        match wrappedValues (.obj members) with
        | some values => [⟨values, [], 0⟩]
        | none =>
            if (otlpUnwrapAnyValue duck members).isSome then []
            else (members.flatMap (memberCalls (call.depth + 1))).map Prod.snd
    | .arr elements =>
        if otlpIsKeyValueArray (.arr elements) then
          (elements.flatMap (keyValueCalls call.depth)).map Prod.snd
        else elements.map fun element => ⟨element, [], call.depth + 1⟩
    | _ => []

variable {duck}

theorem otlpNormalizeMember_eq (key : Bytes) (value : Json) (depth : Nat) :
    otlpNormalizeMember duck key value depth =
      (memberOf key value).map fun v => otlpNormalizeValue duck v [] depth := by
  cases value with
  | obj members =>
      rw [otlpNormalizeMember, memberOf]
      induction members with
      | nil => rfl
      | cons m rest ih =>
          obtain ⟨k, v⟩ := m
          rw [otlpNormalizeFirst, objGet_cons]
          by_cases hk : k = key
          · simp [hk]
          · simp [hk, ih]
  | _ => rfl

/-- An attribute of an object is the result of the call for its element. -/
theorem attributeMember_eq (depth : Nat) (element : Json) :
    (attributeMember duck depth element).toList =
      (keyValueCalls depth element).map fun c => (c.1, c.2.result duck) := by
  rw [attributeMember, otlpNormalizeMember_eq, keyValueCalls, keyValueOf]
  cases keyValueName element with
  | none => rfl
  | some name =>
      cases memberOf (bytes "value") element with
      | none => rfl
      | some value => rfl

/-- What a member adds to the rebuilt object are the results of its calls. -/
theorem contributed_eq (depth : Nat) (member : Bytes × Json) :
    contributed duck depth member =
      (memberCalls depth member).map fun c => (c.1, c.2.result duck) := by
  rw [contributed, memberCalls]
  split
  · next hspread =>
    obtain ⟨k, v⟩ := member
    cases v with
    | arr elements =>
        rw [attributeMembers, arrayElements, List.map_flatMap, List.filterMap_eq_flatMap_toList]
        simp only [attributeMember_eq]
    | _ => simp [isSpread, otlpIsKeyValueArray] at hspread
  · rfl

theorem otlpKeyValues_eq (elements : List Json) (depth : Nat) :
    otlpKeyValues duck elements depth =
      (elements.flatMap (keyValueCalls depth)).map fun c => (c.1, c.2.result duck) := by
  induction elements with
  | nil => simp [otlpKeyValues]
  | cons element rest ih =>
      rw [otlpKeyValues, otlpNormalizeMember_eq, List.flatMap_cons, List.map_append, ← ih,
        keyValueCalls, keyValueOf]
      cases keyValueName element with
      | none => rfl
      | some name =>
          cases memberOf (bytes "value") element with
          | none => rfl
          | some value => rfl

/-! ## what a run records -/

/-- The wrapper of a list is taken apart. -/
theorem otlpUnwrapAnyValue_of_wrapped {members : List (Bytes × Json)} {values : Json}
    (h : wrappedValues (.obj members) = some values) :
    otlpUnwrapAnyValue duck members = some (otlpNormalizeValue duck values [] 0) := by
  obtain _ | ⟨⟨name, inner⟩, _ | ⟨member, rest⟩⟩ := members
  · exact nomatch h
  · rw [wrappedValues] at h
    split at h
    · next hlist =>
      have hplain : isPlainWrapper name = false := by
        simp only [isListWrapper, Bool.or_eq_true, decide_eq_true_eq] at hlist
        obtain rfl | rfl := hlist <;> decide
      have hint : name ≠ bytes "intValue" := by
        simp only [isListWrapper, Bool.or_eq_true, decide_eq_true_eq] at hlist
        obtain rfl | rfl := hlist <;> decide
      rw [otlpUnwrapAnyValue, hplain, if_neg Bool.false_ne_true, if_neg hint, if_pos hlist,
        otlpNormalizeMember_eq, h, Option.map_some]
    · exact nomatch h
  · exact nomatch h

theorem records_otlpUnwrapStep (members : List (Bytes × Json)) :
    Records (otlpUnwrapStep duck (fun nested => record nested (nested.result duck)) members)
      (otlpUnwrapAnyValue duck members)
      ((wrappedValues (.obj members)).toList.map fun values => ⟨values, [], 0⟩) := by
  obtain _ | ⟨⟨name, inner⟩, _ | ⟨member, rest⟩⟩ := members
  · exact .pure _
  · rw [otlpUnwrapStep, otlpUnwrapAnyValue, wrappedValues]
    by_cases hplain : isPlainWrapper name = true
    · have hlist : isListWrapper name = false := by
        simp only [isPlainWrapper, Bool.or_eq_true, decide_eq_true_eq] at hplain
        obtain ((rfl | rfl) | rfl) | rfl := hplain <;> decide
      simp only [hplain, hlist, if_true, Bool.false_eq_true, if_false]
      exact .pure _
    · by_cases hint : name = bytes "intValue"
      · subst hint
        exact .pure _
      · simp only [hplain, hint, if_false, otlpNormalizeMember_eq]
        by_cases hlist : isListWrapper name = true
        · simp only [hlist, if_true]
          cases memberOf (bytes "values") inner with
          | none => exact .pure _
          | some values => exact (Records.record _ _).bind_pure some
        · simp only [hlist]
          exact .pure _
  · exact .pure _

/-- A KeyValue of a list adds the result of its call, if there is one. -/
theorem records_otlpSpreadStep (depth : Nat) (object : List (Bytes × Json)) (element : Json) :
    Records (otlpSpreadStep (fun nested => record nested (nested.result duck)) depth object element)
      (addMembers object ((keyValueCalls depth element).map fun c => (c.1, c.2.result duck)))
      ((keyValueCalls depth element).map Prod.snd) := by
  rw [otlpSpreadStep, keyValueCalls]
  cases keyValueOf element with
  | none => exact .pure _
  | some entry => exact (Records.record _ _).bind_pure fun n => addMember object entry.1 n

theorem foldl_addMembers (f : α → List (Bytes × Json)) (as : List α)
    (object : List (Bytes × Json)) :
    as.foldl (fun object a => addMembers object (f a)) object =
      addMembers object (as.flatMap f) := by
  induction as generalizing object with
  | nil => rfl
  | cons a as ih => rw [List.foldl_cons, ih, List.flatMap_cons, addMembers_append]

theorem records_otlpMemberStep (depth : Nat) (object : List (Bytes × Json))
    (member : Bytes × Json) :
    Records (otlpMemberStep (fun nested => record nested (nested.result duck)) depth object member)
      (addMembers object (contributed duck depth member))
      ((memberCalls depth member).map Prod.snd) := by
  rw [contributed_eq, otlpMemberStep, memberCalls]
  split
  · rw [List.map_flatMap, List.map_flatMap, ← foldl_addMembers]
    exact .foldlM (records_otlpSpreadStep depth) _ _
  · exact (Records.record _ _).bind_pure fun n => addMember object member.1 n

theorem records_otlpKeyValueStep (depth : Nat) (converted : List (Bytes × Json))
    (element : Json) :
    Records
      (otlpKeyValueStep (fun nested => record nested (nested.result duck)) depth converted element)
      (converted ++ (keyValueCalls depth element).map fun c => (c.1, c.2.result duck))
      ((keyValueCalls depth element).map Prod.snd) := by
  rw [otlpKeyValueStep, keyValueCalls]
  cases keyValueOf element with
  | none =>
      rw [List.map_nil, List.append_nil]
      exact .pure _
  | some entry => exact (Records.record _ _).bind_pure fun n => converted ++ [(entry.1, n)]

/-- **One run** returns what `otlpNormalizeValue` is, and makes these calls. -/
theorem records_otlpStep (call : OtlpCall) :
    Records (otlpStep duck (fun nested => record nested (nested.result duck)) call)
      (call.result duck) (call.nested duck) := by
  obtain ⟨value, key, depth⟩ := call
  rw [otlpStep, OtlpCall.result, OtlpCall.nested]
  by_cases hdepth : depth > rawMaxNesting
  · rw [if_pos hdepth, if_pos hdepth]
    have hvalue : otlpNormalizeValue duck value key depth = value := by
      cases value <;> simp [otlpNormalizeValue, hdepth]
    rw [hvalue]
    exact .pure _
  · rw [if_neg hdepth, if_neg hdepth]
    cases value with
    | obj members =>
        dsimp only
        rw [otlpNormalizeValue, if_neg hdepth]
        have hunwrap := @records_otlpUnwrapStep duck members
        cases hwrapped : wrappedValues (.obj members) with
        | some values =>
            have hsome := @otlpUnwrapAnyValue_of_wrapped duck _ _ hwrapped
            rw [hwrapped, hsome] at hunwrap
            rw [hsome]
            exact hunwrap.bind (.pure _)
        | none =>
            rw [hwrapped] at hunwrap
            cases hsome : otlpUnwrapAnyValue duck members with
            | some unwrapped =>
                rw [hsome] at hunwrap
                exact hunwrap.bind (.pure unwrapped)
            | none =>
                rw [hsome] at hunwrap
                refine hunwrap.bind ?_
                rw [otlpNormalizeObject_eq, ← foldl_addMembers, List.map_flatMap]
                exact (Records.foldlM (records_otlpMemberStep (depth + 1)) members []).bind_pure
                  Json.obj
    | arr elements =>
        dsimp only
        rw [otlpNormalizeValue, if_neg hdepth]
        split
        · rw [otlpKeyValues_eq, List.map_flatMap, List.map_flatMap]
          have hfold : ∀ (elements : List Json) (converted : List (Bytes × Json)),
              elements.foldl (fun converted element => converted ++
                (keyValueCalls depth element).map fun c => (c.1, c.2.result duck)) converted =
              converted ++ elements.flatMap fun element =>
                (keyValueCalls depth element).map fun c => (c.1, c.2.result duck) := by
            intro elements
            induction elements with
            | nil => simp
            | cons element rest ih => simp [ih]
          have hrun := Records.foldlM (@records_otlpKeyValueStep duck depth) elements []
          rw [hfold, List.nil_append] at hrun
          exact hrun.bind_pure Json.obj
        · rw [otlpElements_eq]
          have hrun := Records.mapM (fun element => Records.record
            (⟨element, [], depth + 1⟩ : OtlpCall) (OtlpCall.result duck ⟨element, [], depth + 1⟩))
            elements
          rw [← List.map_eq_flatMap] at hrun
          exact hrun.bind_pure Json.arr
    | str str =>
        rw [otlpNormalizeValue, if_neg hdepth]
        exact .pure _
    | _ => exact .pure _

/-- What a run returns, and the calls it makes. -/
theorem OtlpCall.run_eq (call : OtlpCall) : call.run duck = (call.result duck, call.nested duck) :=
  (records_otlpStep call).outcome_eq

/-! ## the levels below a row -/

/-- The calls made for a row: the levels between the call and that of the row, and
the list wrappers among the values of the calls between. -/
inductive Made (duck : Duck) (row : Json) : (level wrappers : Nat) → OtlpCall → Prop where
  | row : Made duck row 0 0 ⟨row, [], 0⟩
  | nested {level wrappers : Nat} {call call' : OtlpCall} :
      Made duck row level wrappers call → call' ∈ (call.run duck).2 →
      Made duck row (level + 1)
        (wrappers + if (wrappedValues call.value).isSome then 1 else 0) call'

theorem mem_run_iff {call call' : OtlpCall} :
    call' ∈ (call.run duck).2 ↔ call' ∈ call.nested duck := by
  rw [OtlpCall.run_eq]

/-- The depth of a nested call is 0 behind a wrapper and one or two more than that of
the caller elsewhere, and the caller is within the guard. -/
theorem depth_nested {call call' : OtlpCall} (h : call' ∈ call.nested duck) :
    call.depth ≤ rawMaxNesting ∧
      if (wrappedValues call.value).isSome then call'.depth = 0
      else call.depth < call'.depth ∧ call'.depth ≤ call.depth + 2 := by
  have hkeyValue : ∀ {depth : Nat} {element : Json} {c : Bytes × OtlpCall},
      c ∈ keyValueCalls depth element → c.2.depth = depth + 1 := by
    intro depth element c hc
    rw [keyValueCalls] at hc
    split at hc
    · rw [List.mem_singleton.mp hc]
    · exact nomatch hc
  obtain ⟨value, key, depth⟩ := call
  rw [OtlpCall.nested] at h
  split at h
  · exact nomatch h
  · next hdepth =>
    refine ⟨Nat.not_lt.mp hdepth, ?_⟩
    dsimp only at h ⊢
    cases value with
    | obj members =>
        dsimp only at h
        cases hwrapped : wrappedValues (.obj members) with
        | some values =>
            rw [hwrapped] at h
            rw [List.mem_singleton.mp h]
            rfl
        | none =>
            simp only [hwrapped] at h
            split at h
            · exact nomatch h
            · obtain ⟨c, hc, rfl⟩ := List.mem_map.mp h
              obtain ⟨member, -, hc⟩ := List.mem_flatMap.mp hc
              have hmember : c.2.depth = depth + 2 := by
                rw [memberCalls] at hc
                split at hc
                · obtain ⟨element, -, hc⟩ := List.mem_flatMap.mp hc
                  exact hkeyValue hc
                · rw [List.mem_singleton.mp hc]
              show depth < c.2.depth ∧ c.2.depth ≤ depth + 2
              omega
    | arr elements =>
        dsimp only at h
        have helement : call'.depth = depth + 1 := by
          split at h
          · obtain ⟨c, hc, rfl⟩ := List.mem_map.mp h
            obtain ⟨element, -, hc⟩ := List.mem_flatMap.mp hc
            exact hkeyValue hc
          · obtain ⟨element, -, rfl⟩ := List.mem_map.mp h
            rfl
        show depth < call'.depth ∧ call'.depth ≤ depth + 2
        omega
    | _ => exact nomatch h

/-- Every wrapper on the way is a level. -/
theorem wrappers_le_level {row : Json} {level wrappers : Nat} {call : OtlpCall}
    (h : Made duck row level wrappers call) : wrappers ≤ level := by
  induction h with
  | row => exact Nat.le_refl 0
  | nested _ _ ih => split <;> omega

/-- No call is far beyond the guard. -/
theorem made_depth_le {row : Json} {level wrappers : Nat} {call : OtlpCall}
    (h : Made duck row level wrappers call) : call.depth ≤ rawMaxNesting + 2 := by
  cases h with
  | row => exact Nat.zero_le _
  | nested _ hcall =>
      obtain ⟨hguard, hdepth⟩ := depth_nested (mem_run_iff.mp hcall)
      split at hdepth <;> omega

/-- Between two wrappers the guard bounds the levels. -/
theorem made_level_le {row : Json} {level wrappers : Nat} {call : OtlpCall}
    (h : Made duck row level wrappers call) :
    level ≤ wrappers * (rawMaxNesting + 1) + call.depth := by
  induction h with
  | row => exact Nat.zero_le _
  | @nested _ wrappers call _ _ hcall ih =>
      obtain ⟨hguard, hdepth⟩ := depth_nested (mem_run_iff.mp hcall)
      by_cases hwrapped : (wrappedValues call.value).isSome = true
      · rw [if_pos hwrapped] at hdepth ⊢
        rw [Nat.add_mul, hdepth]
        omega
      · rw [if_neg hwrapped] at hdepth ⊢
        show _ ≤ wrappers * (rawMaxNesting + 1) + _
        omega

/-- **The guard bounds the levels** of the calls on exactly those sets of rows on
which it is bounded how many list wrappers are taken apart inside one another. -/
theorem made_level_bounded_iff (duck : Duck) (rows : Set Json) :
    (∃ c, ∀ row ∈ rows, ∀ level wrappers call, Made duck row level wrappers call →
      level ≤ c * rawMaxNesting) ↔
    ∃ w, ∀ row ∈ rows, ∀ level wrappers call, Made duck row level wrappers call →
      wrappers ≤ w := by
  constructor
  · rintro ⟨c, hlevels⟩
    refine ⟨c * rawMaxNesting, fun row hrow level wrappers call hcall => ?_⟩
    exact Nat.le_trans (wrappers_le_level hcall) (hlevels row hrow level wrappers call hcall)
  · rintro ⟨w, hwrappers⟩
    refine ⟨2 * w + 2, fun row hrow level wrappers call hcall => ?_⟩
    have hw := hwrappers row hrow level wrappers call hcall
    have hdepth := made_depth_le hcall
    have hmul : wrappers * (rawMaxNesting + 1) ≤ w * (rawMaxNesting + 1) :=
      Nat.mul_le_mul_right _ hw
    have hlevel := made_level_le hcall
    simp only [rawMaxNesting] at hdepth hmul hlevel ⊢
    omega

/-! ## wrappers inside wrappers -/

/-- `{"arrayValue":{"values":[…]}}`. -/
def wrapped : Nat → Json
  | 0 => .str []
  | k + 1 => .obj [(bytes "arrayValue", .obj [(bytes "values", .arr [wrapped k])])]

/-- Every wrapper is two levels. -/
theorem made_wrapped (duck : Duck) (row : Json) {level wrappers depth k : Nat} {key : Bytes}
    (hdepth : depth ≤ rawMaxNesting)
    (h : Made duck row level wrappers ⟨wrapped k, key, depth⟩) :
    ∃ wrappers' call, Made duck row (level + 2 * k) wrappers' call := by
  induction k generalizing level wrappers depth key with
  | zero => exact ⟨wrappers, _, h⟩
  | succ k ih =>
      have hvalues : (⟨.arr [wrapped k], [], 0⟩ : OtlpCall) ∈
          OtlpCall.nested duck ⟨wrapped (k + 1), key, depth⟩ := by
        rw [OtlpCall.nested, if_neg (by simpa using hdepth)]
        exact List.mem_singleton_self _
      have helement : (⟨wrapped k, [], 1⟩ : OtlpCall) ∈
          OtlpCall.nested duck ⟨.arr [wrapped k], [], 0⟩ := by
        have hplain : otlpIsKeyValueArray (.arr [wrapped k]) = false := by
          cases k <;> rfl
        rw [OtlpCall.nested, if_neg (Nat.not_lt_zero _)]
        simp only [hplain, Bool.false_eq_true, if_false]
        exact List.mem_singleton_self _
      have hmade := (h.nested (mem_run_iff.mpr hvalues)).nested (mem_run_iff.mpr helement)
      obtain ⟨wrappers', call, hcall⟩ := ih (by decide) hmade
      refine ⟨wrappers', call, ?_⟩
      rwa [show level + 2 * (k + 1) = level + 1 + 1 + 2 * k by omega]

/-- No multiple of the limit bounds the levels below every row. -/
theorem made_level_unbounded :
    ¬∃ c, ∀ row level wrappers call, Made smallDuck row level wrappers call →
      level ≤ c * rawMaxNesting := by
  rintro ⟨c, hlevels⟩
  obtain ⟨wrappers, call, hcall⟩ := made_wrapped smallDuck (wrapped (c * rawMaxNesting + 1))
    (by decide) .row
  have hlevel := hlevels _ _ _ _ hcall
  omega

end RawDuck
