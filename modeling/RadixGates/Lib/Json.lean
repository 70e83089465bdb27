import Mathlib.Algebra.Group.Int.Defs
import Mathlib.Data.List.Sort
import Mathlib.Data.String.Basic

/-!
# Decoding JSON objects

An object is the list of its members in the order of the text, with whatever
duplicates the text has.  It is decoded in two ways.  A map takes the keys as
they are and keeps the last value of each.  A record has named fields; a member
goes to the field that has its key for a name, or else to the first one whose
name is the same up to case folding, and members that fit no field are dropped.
-/

set_option autoImplicit false

namespace RadixGates.Json

/-- A number as it is written. -/
structure Number where
  negative : Bool
  whole : Nat
  fraction : Option (List (Fin 10))
  exponent : Option Int
  deriving DecidableEq, Repr

/-- A number without a fraction and an exponent. -/
def Number.integer (number : Number) : Option Int :=
  match number.fraction, number.exponent with
  | none, none => some (if number.negative then -number.whole else number.whole)
  | _, _ => none

def Number.ofInt (i : Int) : Number := ⟨decide (i < 0), i.natAbs, none, none⟩

theorem Number.integer_ofInt (i : Int) : (Number.ofInt i).integer = some i := by
  simp only [Number.integer, Number.ofInt, decide_eq_true_eq, Option.some.injEq]
  split <;> omega

inductive Value where
  | null
  | bool (b : Bool)
  | num (number : Number)
  | str (s : String)
  | arr (items : List Value)
  | obj (members : List (String × Value))

abbrev Object := List (String × Value)

/-! ## Case folding -/

/-- The least character that differs from this one in case only, where that is
an ASCII character, as those of field names are; besides the letters there are
the long s and the Kelvin sign. -/
def foldRune (c : Char) : Char :=
  if 'a' ≤ c ∧ c ≤ 'z' then Char.ofNat (c.toNat - 32)
  else if c = Char.ofNat 0x17f then 'S'
  else if c = Char.ofNat 0x212a then 'K'
  else c

def foldName (name : String) : List Char := name.toList.map foldRune

/-! ## Members -/

/-- The value of the last member whose key satisfies the condition. -/
def Object.last (p : String → Bool) : Object → Option Value
  | [] => none
  | member :: rest => (Object.last p rest).or (if p member.1 then some member.2 else none)

/-- The value of a key; the last duplicate wins. -/
def Object.value (o : Object) (key : String) : Option Value := o.last fun k => k == key

/-- The values for a field of this name, in any spelling and in their order. -/
def Object.bound (o : Object) (name : String) : List Value :=
  (o.filter fun member => foldName member.1 == foldName name).map fun member => member.2

def Object.keys (o : Object) : List String := o.map fun member => member.1

theorem last_append (p : String → Bool) (first second : Object) :
    Object.last p (first ++ second) = (Object.last p second).or (Object.last p first) := by
  induction first with
  | nil => simp [Object.last]
  | cons member rest ih => simp [Object.last, ih, Option.or_assoc]

theorem value_isSome_iff (o : Object) (key : String) :
    (o.value key).isSome = true ↔ key ∈ o.keys := by
  simp only [Object.value, Object.keys]
  induction o with
  | nil => simp [Object.last]
  | cons member rest ih =>
      simp only [Object.last, Option.isSome_or, Bool.or_eq_true, ih, List.map_cons, List.mem_cons]
      rw [or_comm]
      apply or_congr _ Iff.rfl
      by_cases here : member.1 = key
      · simp [here]
      · simp [here, Ne.symm here]

/-! ## Maps -/

def Object.remove (o : Object) (key : String) : Object := o.filter fun member => member.1 ≠ key

def Object.put (o : Object) (key : String) (value : Value) : Object :=
  o.remove key ++ [(key, value)]

def decodeMap (o : Object) : Object := o.foldl (fun m member => m.put member.1 member.2) []

/-- The members of a map in the order of their keys. -/
def marshalMap (m : Object) : Object := m.insertionSort fun a b => a.1 ≤ b.1

theorem value_remove (o : Object) (key other : String) :
    (o.remove key).value other = if other = key then none else o.value other := by
  induction o with
  | nil => simp [Object.remove, Object.value, Object.last]
  | cons member rest ih =>
      simp only [Object.remove, Object.value] at ih ⊢
      by_cases here : member.1 = key
      · simp only [List.filter_cons, here, ne_eq, not_true_eq_false, decide_false,
          Bool.false_eq_true, if_false, ih, Object.last, beq_iff_eq]
        by_cases same : other = key
        · simp [same]
        · simp [same, Ne.symm same]
      · simp only [List.filter_cons, here, ne_eq, not_false_eq_true, decide_true, if_true,
          Object.last, ih, beq_iff_eq]
        by_cases same : other = key
        · simp [same, here]
        · simp [same]

theorem value_put (o : Object) (key other : String) (value : Value) :
    (o.put key value).value other = if other = key then some value else o.value other := by
  have removed := value_remove o key other
  simp only [Object.value, Object.put] at removed ⊢
  rw [last_append, removed]
  by_cases same : other = key
  · simp [Object.last, same]
  · simp [Object.last, same, Ne.symm same]

/-- Only a key that is not there yet is put in. -/
def Object.putAbsent (o : Object) (key : String) (value : Value) : Object :=
  if (o.value key).isSome then o else o.put key value

theorem value_putAbsent (o : Object) (key other : String) (value : Value) :
    (o.putAbsent key value).value other =
      if other = key then some ((o.value key).getD value) else o.value other := by
  unfold Object.putAbsent
  cases present : o.value key with
  | some old =>
      simp only [Option.isSome_some, if_true, Option.getD_some]
      split
      · rename_i same
        rw [same, present]
      · rfl
  | none => simp [value_put]

theorem value_decodeMap (o : Object) (key : String) : (decodeMap o).value key = o.value key := by
  have onto : ∀ (o m : Object),
      Object.value (o.foldl (fun m member => m.put member.1 member.2) m) key =
        (o.value key).or (m.value key) := by
    intro o
    induction o with
    | nil => exact fun m => rfl
    | cons member rest ih =>
        intro m
        rw [List.foldl_cons, ih, value_put]
        simp only [Object.value, Object.last, beq_iff_eq]
        by_cases here : member.1 = key
        · simp [here]
        · simp [here, Ne.symm here]
  rw [decodeMap, onto]
  simp [Object.value, Object.last]

/-- Every key once. -/
def Object.IsMap (o : Object) : Prop := o.keys.Nodup

theorem IsMap.remove {o : Object} (isMap : o.IsMap) (key : String) : (o.remove key).IsMap :=
  isMap.sublist (List.filter_sublist.map _)

theorem IsMap.put {o : Object} (isMap : o.IsMap) (key : String) (value : Value) :
    (o.put key value).IsMap := by
  have rest := IsMap.remove isMap key
  simp only [Object.IsMap, Object.keys, Object.put, List.map_append] at rest ⊢
  apply rest.append (List.nodup_singleton key)
  intro other inRest isKey
  rw [List.mem_singleton.mp isKey] at inRest
  obtain ⟨member, kept, same⟩ := List.mem_map.mp inRest
  simp [Object.remove, same] at kept

theorem IsMap.putAbsent {o : Object} (isMap : o.IsMap) (key : String) (value : Value) :
    (o.putAbsent key value).IsMap := by
  unfold Object.putAbsent
  split
  · exact isMap
  · exact IsMap.put isMap key value

theorem isMap_decodeMap (o : Object) : (decodeMap o).IsMap := by
  have onto : ∀ (o m : Object), m.IsMap →
      Object.IsMap (o.foldl (fun m member => m.put member.1 member.2) m) := by
    intro o
    induction o with
    | nil => exact fun m isMap => isMap
    | cons member rest ih => exact fun m isMap => ih _ (IsMap.put isMap member.1 member.2)
  exact onto o [] List.nodup_nil

theorem IsMap.value_eq_some_iff {o : Object} (isMap : o.IsMap) (key : String) (value : Value) :
    o.value key = some value ↔ (key, value) ∈ o := by
  induction o with
  | nil => simp [Object.value, Object.last]
  | cons member rest ih =>
      obtain ⟨absent, isMap⟩ := List.nodup_cons.mp isMap
      have later := ih isMap
      simp only [Object.value, Object.last] at later ⊢
      rw [List.mem_cons, ← later]
      by_cases here : member.1 = key
      · have none : Object.last (fun k => k == key) rest = none := by
          have := (value_isSome_iff rest key).not.mpr (here ▸ absent)
          simpa [Object.value] using this
        simp [none, here, Prod.ext_iff, eq_comm]
      · simp [here, Prod.ext_iff, Ne.symm here]

/-- Sorting a map changes no value. -/
theorem IsMap.value_marshalMap {o : Object} (isMap : o.IsMap) (key : String) :
    (marshalMap o).value key = o.value key := by
  have perm : (marshalMap o).Perm o := List.perm_insertionSort _ o
  have keys : (marshalMap o).keys.Perm o.keys := perm.map _
  have sorted : (marshalMap o).IsMap := keys.nodup_iff.mpr isMap
  ext value
  rw [IsMap.value_eq_some_iff sorted, IsMap.value_eq_some_iff isMap]
  exact perm.mem_iff

/-! ## Records -/

section
variable {S : Type}

/-- A field of a record and how a value is stored in it; a value of the wrong
type is an error. -/
structure RecordField (S : Type) where
  name : String
  store : S → Value → Option S

/-- The field a key is bound to. -/
def bindKey (fields : List (RecordField S)) (key : String) : Option (RecordField S) :=
  (fields.find? fun f => f.name == key).or (fields.find? fun f => foldName f.name == foldName key)

def decodeStruct (fields : List (RecordField S)) (s : S) : Object → Option S
  | [] => some s
  | member :: rest =>
      match bindKey fields member.1 with
      | none => decodeStruct fields s rest
      | some f => (f.store s member.2).bind fun s => decodeStruct fields s rest

/-- No two names differ in case only. -/
def Distinct (fields : List (RecordField S)) : Prop := (fields.map fun f => foldName f.name).Nodup

/-- With distinct names the spelling of a key does not matter. -/
theorem bindKey_eq_some_iff {fields : List (RecordField S)} (distinct : Distinct fields)
    (key : String) (f : RecordField S) :
    bindKey fields key = some f ↔ f ∈ fields ∧ foldName f.name = foldName key := by
  have fits : ∀ g, bindKey fields key = some g → g ∈ fields ∧ foldName g.name = foldName key := by
    intro g found
    rcases Option.or_eq_some_iff.mp found with exactly | ⟨_, folded⟩
    · have same := List.find?_some exactly
      rw [beq_iff_eq] at same
      exact ⟨List.mem_of_find?_eq_some exactly, by rw [same]⟩
    · have same := List.find?_some folded
      exact ⟨List.mem_of_find?_eq_some folded, by simpa using same⟩
  refine ⟨fits f, ?_⟩
  rintro ⟨isField, same⟩
  have found : (bindKey fields key).isSome = true := by
    rw [bindKey, Option.isSome_or, Bool.or_eq_true]
    refine Or.inr (List.find?_isSome.mpr ⟨f, isField, ?_⟩)
    simpa using same
  obtain ⟨g, isBound⟩ := Option.isSome_iff_exists.mp found
  obtain ⟨other, sameFold⟩ := fits g isBound
  rw [isBound, List.inj_on_of_nodup_map distinct other isField (sameFold.trans same.symm)]

/-- What a record has in a field: the members for it, in any spelling, are stored
one after another. -/
theorem decodeStruct_field {α : Type} {fields : List (RecordField S)} (distinct : Distinct fields)
    {f : RecordField S} (isField : f ∈ fields) (read : S → α) (stored : α → Value → α)
    (own : ∀ s value s', f.store s value = some s' → read s' = stored (read s) value)
    (others : ∀ g ∈ fields, g.name ≠ f.name → ∀ s value s', g.store s value = some s' →
      read s' = read s)
    (o : Object) (start final : S) (decoded : decodeStruct fields start o = some final) :
    read final = (o.bound f.name).foldl stored (read start) := by
  induction o generalizing start with
  | nil =>
      cases Option.some.inj decoded
      rfl
  | cons member rest ih =>
      have binds := bindKey_eq_some_iff distinct member.1
      simp only [decodeStruct] at decoded
      simp only [Object.bound] at ih ⊢
      rw [List.filter_cons]
      cases found : bindKey fields member.1 with
      | none =>
          have away : foldName member.1 ≠ foldName f.name := by
            intro same
            have := (binds f).mpr ⟨isField, same.symm⟩
            rw [found] at this
            cases this
          simp only [found] at decoded
          simp [away, ih start decoded]
      | some g =>
          obtain ⟨isOther, here⟩ := (binds g).mp found
          simp only [found] at decoded
          obtain ⟨middle, first, later⟩ := Option.bind_eq_some_iff.mp decoded
          rw [ih middle later]
          by_cases same : foldName member.1 = foldName f.name
          · have : g = f := List.inj_on_of_nodup_map distinct isOther isField (here.trans same)
            subst this
            simp [same, own start member.2 middle first]
          · have away : g.name ≠ f.name := by
              intro equal
              exact same (by rw [← here, equal])
            simp [same, others g isOther away start member.2 middle first]

end

/-! ## Kinds of fields -/

section
variable {S α : Type}

/-- A pointer field; `null` makes it nil. -/
def storePointer (read : Value → Option α) (set : S → Option α → S) (s : S) : Value → Option S
  | .null => some (set s none)
  | value => (read value).map fun x => set s (some x)

/-- A string field; `null` leaves it alone. -/
def storeString (set : S → String → S) (s : S) : Value → Option S
  | .null => some s
  | .str text => some (set s text)
  | _ => none

def asStr : Value → Option String
  | .str text => some text
  | _ => none

def asBool : Value → Option Bool
  | .bool b => some b
  | _ => none

/-- A number without fraction and exponent that fits into an `int`. -/
def asInt : Value → Option Int
  | .num number => number.integer.filter fun i => -2 ^ 63 ≤ i ∧ i < 2 ^ 63
  | _ => none

theorem storePointer_read {read : Value → Option α} {set : S → Option α → S} {get : S → Option α}
    (null : read .null = none) (getSet : ∀ s x, get (set s x) = x) (s : S) (value : Value) (s' : S)
    (stored : storePointer read set s value = some s') : get s' = read value := by
  cases value with
  | null =>
      cases Option.some.inj stored
      rw [null, getSet]
  | bool | num | str | arr | obj =>
      obtain ⟨x, isRead, rfl⟩ := Option.map_eq_some_iff.mp stored
      rw [getSet, isRead]

theorem storePointer_keeps {β : Type} {read : Value → Option α} {set : S → Option α → S}
    {get : S → β} (getSet : ∀ s x, get (set s x) = get s) (s : S) (value : Value) (s' : S)
    (stored : storePointer read set s value = some s') : get s' = get s := by
  cases value with
  | null =>
      cases Option.some.inj stored
      exact getSet s none
  | bool | num | str | arr | obj =>
      obtain ⟨x, isRead, rfl⟩ := Option.map_eq_some_iff.mp stored
      exact getSet s (some x)

theorem storeString_read {set : S → String → S} {get : S → String}
    (getSet : ∀ s text, get (set s text) = text) (s : S) (value : Value) (s' : S)
    (stored : storeString set s value = some s') : get s' = (asStr value).getD (get s) := by
  cases value with
  | null =>
      cases Option.some.inj stored
      rfl
  | str text =>
      cases Option.some.inj stored
      exact getSet s text
  | bool | num | arr | obj => cases stored

theorem storeString_keeps {β : Type} {set : S → String → S} {get : S → β}
    (getSet : ∀ s text, get (set s text) = get s) (s : S) (value : Value) (s' : S)
    (stored : storeString set s value = some s') : get s' = get s := by
  cases value with
  | null =>
      cases Option.some.inj stored
      rfl
  | str text =>
      cases Option.some.inj stored
      exact getSet s text
  | bool | num | arr | obj => cases stored

/-- The last value decides about a pointer. -/
theorem foldl_pointer (read : Value → Option α) (values : List Value) (start : Option α) :
    values.foldl (fun _ value => read value) start = (values.getLast?.map read).getD start := by
  induction values generalizing start with
  | nil => rfl
  | cons value rest ih =>
      rw [List.foldl_cons, ih, List.getLast?_cons]
      cases rest.getLast? <;> rfl

/-- The last string decides about a string. -/
theorem foldl_string (values : List Value) (start : String) :
    values.foldl (fun old value => (asStr value).getD old) start =
      (values.filterMap asStr).getLast?.getD start := by
  induction values generalizing start with
  | nil => rfl
  | cons value rest ih =>
      rw [List.foldl_cons, ih, List.filterMap_cons]
      cases asStr value with
      | none => rfl
      | some text => simp [List.getLast?_cons]

/-- A pointer field of a fresh record holds what the last member for it says. -/
theorem decodeStruct_pointer {fields : List (RecordField S)} (distinct : Distinct fields)
    {name : String} {read : Value → Option α} {set : S → Option α → S}
    (isField : ⟨name, storePointer read set⟩ ∈ fields) (null : read .null = none)
    (get : S → Option α) (getSet : ∀ s x, get (set s x) = x)
    (others : ∀ g ∈ fields, g.name ≠ name → ∀ s value s', g.store s value = some s' →
      get s' = get s)
    (o : Object) (start final : S) (fresh : get start = none)
    (decoded : decodeStruct fields start o = some final) :
    get final = (o.bound name).getLast?.bind read := by
  have folded := decodeStruct_field distinct isField get (fun _ value => read value)
    (storePointer_read null getSet) others o start final decoded
  rw [folded, foldl_pointer, fresh]
  cases (o.bound name).getLast? <;> rfl

/-- A string field holds the last string of the members for it. -/
theorem decodeStruct_string {fields : List (RecordField S)} (distinct : Distinct fields)
    {name : String} {set : S → String → S} (isField : ⟨name, storeString set⟩ ∈ fields) (get : S → String)
    (getSet : ∀ s text, get (set s text) = text)
    (others : ∀ g ∈ fields, g.name ≠ name → ∀ s value s', g.store s value = some s' →
      get s' = get s)
    (o : Object) (start final : S) (decoded : decodeStruct fields start o = some final) :
    get final = ((o.bound name).filterMap asStr).getLast?.getD (get start) := by
  have folded := decodeStruct_field distinct isField get (fun old value => (asStr value).getD old)
    (storeString_read getSet) others o start final decoded
  rw [folded, foldl_string]

end

end RadixGates.Json
