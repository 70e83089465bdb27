import RadixGates.Lib.Json

/-!
# Records inside records

A record is decoded over the values it already has: a member goes to its field,
a `null` is passed over, and an object for a field that is a record itself is
decoded over that one in the same way, just as if its members stood behind those
of the earlier objects for the field.  So each value in the end is the last one
that the text gives for it, or else the one from before.
-/

set_option autoImplicit false

namespace RadixGates.Json

variable {S T α β : Type}

def Value.members : Value → Object
  | .obj members => members
  | _ => []

/-! ## Fields -/

/-- A plain field; `null` leaves it alone. -/
def storePlain (decode : Value → Option α) (set : S → α → S) (s : S) : Value → Option S
  | .null => some s
  | value => (decode value).map (set s)

/-- A field that decodes its values itself, `null` included. -/
def storeCustom (decode : Value → Option α) (set : S → α → S) (s : S) (value : Value) : Option S :=
  (decode value).map (set s)

/-- A field that is decoded over its own value: a record or a list. -/
def storeOver (decode : α → Value → Option α) (get : S → α) (set : S → α → S) (s : S)
    (value : Value) : Option S :=
  (decode (get s) value).map (set s)

/-- A record; `null` leaves it alone. -/
def decodeRecord (fields : List (RecordField S)) (s : S) : Value → Option S
  | .null => some s
  | .obj members => decodeStruct fields s members
  | _ => none

theorem decodeRecord_members {fields : List (RecordField S)} {s s' : S} {value : Value}
    (decoded : decodeRecord fields s value = some s') :
    decodeStruct fields s value.members = some s' := by
  cases value with
  | null | obj => exact decoded
  | bool | num | str | arr => cases decoded

/-! ## What a field leaves alone -/

/-- What is read does not change when a value is stored. -/
def Ignores (store : S → Value → Option S) (read : S → β) : Prop :=
  ∀ s value s', store s value = some s' → read s' = read s

@[simp] theorem ignores_plain {decode : Value → Option α} {set : S → α → S} {read : S → β}
    (unread : ∀ s x, read (set s x) = read s) : Ignores (storePlain decode set) read := by
  intro s value s' stored
  cases value with
  | null => rw [Option.some.inj stored]
  | bool | num | str | arr | obj =>
      obtain ⟨x, _, rfl⟩ := Option.map_eq_some_iff.mp stored
      exact unread s x

@[simp] theorem ignores_custom {decode : Value → Option α} {set : S → α → S} {read : S → β}
    (unread : ∀ s x, read (set s x) = read s) : Ignores (storeCustom decode set) read := by
  intro s value s' stored
  obtain ⟨x, _, rfl⟩ := Option.map_eq_some_iff.mp stored
  exact unread s x

@[simp] theorem ignores_over {decode : α → Value → Option α} {get : S → α} {set : S → α → S}
    {read : S → β} (unread : ∀ s x, read (set s x) = read s) :
    Ignores (storeOver decode get set) read := by
  intro s value s' stored
  obtain ⟨x, _, rfl⟩ := Option.map_eq_some_iff.mp stored
  exact unread s x

/-- The other fields do not change what is read. -/
def Reads (fields : List (RecordField S)) (name : String) (read : S → β) : Prop :=
  ∀ f ∈ fields, f.name ≠ name → Ignores f.store read

@[simp] theorem reads_nil (name : String) (read : S → β) : Reads [] name read := by
  intro f isField
  cases isField

@[simp] theorem reads_cons (f : RecordField S) (fields : List (RecordField S)) (name : String)
    (read : S → β) :
    Reads (f :: fields) name read ↔
      (f.name ≠ name → Ignores f.store read) ∧ Reads fields name read :=
  List.forall_mem_cons

/-! ## The last value decides -/

/-- The last value that is given for a field and can be decoded, or else the
default. -/
def Object.setting (o : Object) (name : String) (decode : Value → Option α) (default : α) : α :=
  ((o.bound name).filterMap decode).getLast?.getD default

/-- The field is set to what the value is decoded to, if it is. -/
def Sets (store : S → Value → Option S) (decode : Value → Option α) (read : S → α) : Prop :=
  ∀ s value s', store s value = some s' → read s' = (decode value).getD (read s)

theorem storePlain_sets {decode : Value → Option α} {set : S → α → S} {read : S → α}
    (null : decode .null = none) (readSet : ∀ s x, read (set s x) = x) :
    Sets (storePlain decode set) decode read := by
  intro s value s' stored
  cases value with
  | null =>
      cases Option.some.inj stored
      rw [null, Option.getD_none]
  | bool | num | str | arr | obj =>
      obtain ⟨x, isValue, rfl⟩ := Option.map_eq_some_iff.mp stored
      rw [isValue, readSet, Option.getD_some]

theorem storeCustom_sets {decode : Value → Option α} {set : S → α → S} {read : S → α}
    (readSet : ∀ s x, read (set s x) = x) : Sets (storeCustom decode set) decode read := by
  intro s value s' stored
  obtain ⟨x, isValue, rfl⟩ := Option.map_eq_some_iff.mp stored
  rw [isValue, readSet, Option.getD_some]

theorem foldl_last (decode : Value → Option α) (values : List Value) (start : α) :
    values.foldl (fun old value => (decode value).getD old) start =
      (values.filterMap decode).getLast?.getD start := by
  induction values generalizing start with
  | nil => rfl
  | cons value rest ih =>
      rw [List.foldl_cons, ih, List.filterMap_cons]
      cases decode value with
      | none => rfl
      | some x => simp [List.getLast?_cons]

theorem decodeStruct_setting {fields : List (RecordField S)} (distinct : Distinct fields)
    {o : Object} {start final : S} (decoded : decodeStruct fields start o = some final)
    (index : Nat) {f : RecordField S} (isField : fields[index]? = some f)
    {decode : Value → Option α} (read : S → α) (sets : Sets f.store decode read)
    (reads : Reads fields f.name read) :
    read final = o.setting f.name decode (read start) := by
  have folded := decodeStruct_field distinct (List.mem_of_getElem? isField) read
    (fun old value => (decode value).getD old) sets reads o start final decoded
  rw [folded, foldl_last, Object.setting]

/-! ## Fields with a value of several parts -/

theorem foldl_bind (decode : α → Value → Option α) (values : List Value) (start : Option α) :
    values.foldl (fun x value => x.bind fun x => decode x value) start =
      start.bind fun x => values.foldlM decode x := by
  induction values generalizing start with
  | nil => cases start <;> rfl
  | cons value rest ih =>
      rw [List.foldl_cons, ih, Option.bind_assoc]
      rfl

/-- The values for such a field are decoded one over the other. -/
theorem decodeStruct_over {fields : List (RecordField S)} (distinct : Distinct fields)
    {o : Object} {start final : S} (decoded : decodeStruct fields start o = some final)
    (index : Nat) {name : String} {decode : α → Value → Option α} {get : S → α} {set : S → α → S}
    (isField : fields[index]? = some ⟨name, storeOver decode get set⟩)
    (getSet : ∀ s x, get (set s x) = x) (reads : Reads fields name get) :
    (o.bound name).foldlM decode (get start) = some (get final) := by
  have own : ∀ s value s', storeOver decode get set s value = some s' →
      some (get s') = (some (get s)).bind fun x => decode x value := by
    intro s value s' stored
    obtain ⟨x, isValue, rfl⟩ := Option.map_eq_some_iff.mp stored
    rw [getSet, Option.bind_some, isValue]
  have others : Reads fields name fun s => some (get s) := by
    intro f isOther away s value s' stored
    exact congrArg some (reads f isOther away s value s' stored)
  have folded := decodeStruct_field distinct (List.mem_of_getElem? isField) (fun s => some (get s))
    (fun x value => x.bind fun x => decode x value) own others o start final decoded
  rw [foldl_bind, Option.bind_some] at folded
  exact folded.symm

/-- The members of all objects for a field. -/
def Object.inside (o : Object) (name : String) : Object := (o.bound name).flatMap Value.members

theorem decodeStruct_append (fields : List (RecordField S)) (s : S) (first second : Object) :
    decodeStruct fields s (first ++ second) =
      (decodeStruct fields s first).bind fun s => decodeStruct fields s second := by
  induction first generalizing s with
  | nil => rfl
  | cons member rest ih =>
      rw [List.cons_append, decodeStruct, decodeStruct]
      cases bindKey fields member.1 with
      | none => exact ih s
      | some f =>
          dsimp only
          rw [Option.bind_assoc]
          congr 1
          exact funext ih

theorem foldlM_decodeRecord {fields : List (RecordField S)} {values : List Value} {start final : S}
    (decoded : values.foldlM (decodeRecord fields) start = some final) :
    decodeStruct fields start (values.flatMap Value.members) = some final := by
  induction values generalizing start with
  | nil => exact decoded
  | cons value rest ih =>
      obtain ⟨middle, first, later⟩ := Option.bind_eq_some_iff.mp decoded
      rw [List.flatMap_cons, decodeStruct_append, decodeRecord_members first]
      exact ih later

/-- The objects for a field count as one. -/
theorem decodeStruct_inside {fields : List (RecordField S)} (distinct : Distinct fields)
    {o : Object} {start final : S} (decoded : decodeStruct fields start o = some final)
    (index : Nat) {name : String} {inner : List (RecordField T)} {get : S → T} {set : S → T → S}
    (isField : fields[index]? = some ⟨name, storeOver (decodeRecord inner) get set⟩)
    (getSet : ∀ s x, get (set s x) = x) (reads : Reads fields name get) :
    decodeStruct inner (get start) (o.inside name) = some (get final) :=
  foldlM_decodeRecord (decodeStruct_over distinct decoded index isField getSet reads)

/-! ## Lists -/

/-- A list and what is left in its memory behind it. -/
structure Slice (α : Type) where
  elements : List α
  spare : List α
  deriving DecidableEq, Repr

def Slice.nil : Slice α := ⟨[], []⟩

def Value.items : Value → List Value
  | .arr items => items
  | _ => []

/-- The items are decoded over what is in the memory already. -/
def decodeItems (decode : α → Value → Option α) (zero : α) : List α → List Value → Option (Slice α)
  | memory, [] => some ⟨[], memory⟩
  | memory, item :: rest =>
      (decode (memory.headD zero) item).bind fun first =>
        (decodeItems decode zero memory.tail rest).map fun others =>
          ⟨first :: others.elements, others.spare⟩

def decodeSlice (decode : α → Value → Option α) (zero : α) (slice : Slice α) :
    Value → Option (Slice α)
  | .null => some Slice.nil
  | .arr [] => some Slice.nil
  | .arr (item :: rest) => decodeItems decode zero (slice.elements ++ slice.spare) (item :: rest)
  | _ => none

/-- Each item is decoded over an element of the memory or over the zero value. -/
theorem decodeItems_elements {decode : α → Value → Option α} {zero : α} {memory : List α}
    {items : List Value} {slice : Slice α}
    (decoded : decodeItems decode zero memory items = some slice) :
    List.Forall₂ (fun item x => ∃ old, (old = zero ∨ old ∈ memory) ∧ decode old item = some x) items
      slice.elements := by
  induction items generalizing memory slice with
  | nil =>
      cases Option.some.inj decoded
      exact List.Forall₂.nil
  | cons item rest ih =>
      obtain ⟨first, isFirst, decoded⟩ := Option.bind_eq_some_iff.mp decoded
      obtain ⟨others, isRest, rfl⟩ := Option.map_eq_some_iff.mp decoded
      refine List.Forall₂.cons ⟨_, ?_, isFirst⟩ ((ih isRest).imp ?_)
      · cases memory with
        | nil => exact Or.inl rfl
        | cons x memory => exact Or.inr List.mem_cons_self
      · rintro item x ⟨old, isOld, isItem⟩
        exact ⟨old, isOld.imp_right List.mem_of_mem_tail, isItem⟩

theorem decodeSlice_elements {decode : α → Value → Option α} {zero : α} {slice slice' : Slice α}
    {value : Value} (decoded : decodeSlice decode zero slice value = some slice') :
    List.Forall₂
      (fun item x => ∃ old, (old = zero ∨ old ∈ slice.elements ++ slice.spare) ∧
        decode old item = some x)
      value.items slice'.elements := by
  cases value with
  | null =>
      cases Option.some.inj decoded
      exact List.Forall₂.nil
  | arr items =>
      cases items with
      | nil =>
          cases Option.some.inj decoded
          exact List.Forall₂.nil
      | cons item rest => exact decodeItems_elements decoded
  | bool | num | str | obj => cases decoded

end RadixGates.Json
