import Mathlib.Data.List.TakeWhile
import Mathlib.Tactic.Common

/-!
# Server-sent event streams

The event stream parser of the HTML standard, on bytes: a leading byte order
mark is dropped, lines end at LF, CR or CR LF, a line with a name and a colon is
a field, an empty line dispatches the event, and an event that no empty line
ends is discarded.  Decoding the bytes first makes no difference, since line
ends, colons, spaces and field names are ASCII.  The reconnection time, which
`retry` sets, is no part of an event.

The last section says what appending one `data` line to a stream that may stop
anywhere does.
-/

set_option autoImplicit false

namespace RadixGates.EventStream

def LF : UInt8 := 10

def CR : UInt8 := 13

def colon : UInt8 := 58

def space : UInt8 := 32

def dataName : List UInt8 := [100, 97, 116, 97]

def eventName : List UInt8 := [101, 118, 101, 110, 116]

def idName : List UInt8 := [105, 100]

structure Message where
  eventType : List UInt8
  data : List UInt8
  lastEventId : List UInt8
  deriving DecidableEq, Repr

/-- The buffers of the parser, the unfinished line, and whether the last byte
was a CR, so that an LF would belong to it. -/
structure Parser where
  line : List UInt8
  afterCR : Bool
  data : List UInt8
  eventType : List UInt8
  lastEventId : List UInt8
  deriving DecidableEq, Repr

def Parser.start : Parser := ⟨[], false, [], [], []⟩

/-- The field name is empty for a comment, which no field has. -/
def fieldName (line : List UInt8) : List UInt8 := line.takeWhile (· != colon)

def dropSpace : List UInt8 → List UInt8
  | [] => []
  | b :: rest => if b = space then rest else b :: rest

def fieldValue (line : List UInt8) : List UInt8 :=
  dropSpace ((line.dropWhile (· != colon)).drop 1)

def Parser.field (p : Parser) (line : List UInt8) : Parser :=
  let value := fieldValue line
  if fieldName line = dataName then { p with data := p.data ++ value ++ [LF] }
  else if fieldName line = eventName then { p with eventType := value }
  else if fieldName line = idName ∧ 0 ∉ value then { p with lastEventId := value }
  else p

/-- The data of the event that an empty line would dispatch. -/
def Parser.pending (p : Parser) : Option (List UInt8) :=
  if p.data = [] then none
  else if p.data.getLast? = some LF then some p.data.dropLast
  else some p.data

def Parser.message (p : Parser) : Option Message :=
  p.pending.map fun data => ⟨p.eventType, data, p.lastEventId⟩

def Parser.dispatch (p : Parser) : Parser × List Message :=
  ({ p with data := [], eventType := [] }, p.message.toList)

def Parser.endLine (p : Parser) : Parser × List Message :=
  if p.line = [] then p.dispatch
  else ({ p.field p.line with line := [] }, [])

def Parser.step (p : Parser) (b : UInt8) : Parser × List Message :=
  if b = LF ∧ p.afterCR then ({ p with afterCR := false }, [])
  else if b = LF then { p with afterCR := false }.endLine
  else if b = CR then { p with afterCR := true }.endLine
  else ({ p with line := p.line ++ [b], afterCR := false }, [])

def Parser.feed : Parser → List UInt8 → Parser × List Message
  | p, [] => (p, [])
  | p, b :: rest =>
      let first := p.step b
      let later := first.1.feed rest
      (later.1, first.2 ++ later.2)

def byteOrderMark : List UInt8 := [0xEF, 0xBB, 0xBF]

def dropMark (bytes : List UInt8) : List UInt8 :=
  if bytes.take 3 = byteOrderMark then bytes.drop 3 else bytes

def parserAfter (bytes : List UInt8) : Parser := (Parser.start.feed (dropMark bytes)).1

def events (bytes : List UInt8) : List Message := (Parser.start.feed (dropMark bytes)).2

example : (events [58, 32, 120, 10, 100, 97, 116, 97, 58, 32, 97, 13, 10, 13, 10, 100]).map
    Message.data = [[97]] := by
  decide

/-! ## Appending to a stream -/

theorem feed_append (p : Parser) (xs ys : List UInt8) :
    p.feed (xs ++ ys) =
      (((p.feed xs).1.feed ys).1, (p.feed xs).2 ++ ((p.feed xs).1.feed ys).2) := by
  induction xs generalizing p with
  | nil => rfl
  | cons b rest ih => simp [Parser.feed, ih]

theorem dropMark_append (xs ys : List UInt8) (b : UInt8) (ascii : b ∉ byteOrderMark) :
    dropMark (xs ++ b :: ys) = dropMark xs ++ b :: ys := by
  unfold dropMark
  by_cases long : 3 ≤ xs.length
  · rw [List.take_append_of_le_length long, List.drop_append_of_le_length long]
    split <;> rfl
  · have inside : b ∈ (xs ++ b :: ys).take 3 := by
      rw [List.take_append, List.mem_append]
      right
      obtain ⟨k, more⟩ : ∃ k, 3 - xs.length = k + 1 := ⟨2 - xs.length, by omega⟩
      rw [more, List.take_succ_cons]
      exact List.mem_cons_self
    have noMark : (xs ++ b :: ys).take 3 ≠ byteOrderMark := fun mark => ascii (mark ▸ inside)
    have short : xs.take 3 ≠ byteOrderMark := by
      intro mark
      have := congrArg List.length mark
      simp [byteOrderMark] at this
      omega
    rw [if_neg noMark, if_neg short]

theorem events_append (xs ys : List UInt8) (b : UInt8) (ascii : b ∉ byteOrderMark) :
    events (xs ++ b :: ys) = events xs ++ ((parserAfter xs).feed (b :: ys)).2 := by
  simp only [events, parserAfter, dropMark_append xs ys b ascii, feed_append]

def Plain (bytes : List UInt8) : Prop := ∀ b ∈ bytes, b ≠ LF ∧ b ≠ CR

theorem feed_plain (p : Parser) (b : UInt8) (rest : List UInt8) (plain : Plain (b :: rest)) :
    p.feed (b :: rest) = ({ p with line := p.line ++ b :: rest, afterCR := false }, []) := by
  induction rest generalizing p b with
  | nil =>
      obtain ⟨notLF, notCR⟩ := plain b List.mem_cons_self
      simp [Parser.feed, Parser.step, notLF, notCR]
  | cons c rest ih =>
      obtain ⟨notLF, notCR⟩ := plain b List.mem_cons_self
      have later := ih { p with line := p.line ++ [b], afterCR := false } c
        fun x member => plain x (List.mem_cons_of_mem b member)
      rw [Parser.feed, Parser.step]
      simp [notLF, notCR, later]

theorem field_line (p : Parser) (line buffer : List UInt8) (afterCR : Bool) :
    { p with line := buffer, afterCR := afterCR }.field line =
      { p.field line with line := buffer, afterCR := afterCR } := by
  simp only [Parser.field]
  split_ifs <;> rfl

/-- A line and an empty line dispatch what is pending after the line, which
continues whatever line the stream stopped in. -/
theorem feed_line (p : Parser) (b : UInt8) (rest : List UInt8) (plain : Plain (b :: rest)) :
    (p.feed (b :: rest ++ [LF, LF])).2 = (p.field (p.line ++ b :: rest)).message.toList := by
  have unfinished : p.line ++ b :: rest ≠ [] := by simp
  rw [feed_append, feed_plain p b rest plain]
  simp only [Parser.feed, Parser.step, Parser.endLine, unfinished, Bool.false_eq_true, and_false,
    if_false, if_true, List.nil_append, List.append_nil, Parser.dispatch]
  rw [field_line]
  rfl

/-! ## One `data` line after a stream that stops anywhere -/

def dataLine (value : List UInt8) : List UInt8 := dataName ++ colon :: space :: value

theorem fieldName_colon (name rest : List UInt8) (plain : colon ∉ name) :
    fieldName (name ++ colon :: rest) = name := by
  have before : ∀ b ∈ name, (b != colon) = true := by
    intro b member
    simpa using fun same : b = colon => plain (same ▸ member)
  rw [fieldName, List.takeWhile_append_of_pos before]
  simp

theorem fieldValue_colon (name rest : List UInt8) (plain : colon ∉ name) :
    fieldValue (name ++ colon :: rest) = dropSpace rest := by
  have before : ∀ b ∈ name, (b != colon) = true := by
    intro b member
    simpa using fun same : b = colon => plain (same ▸ member)
  rw [fieldValue, List.dropWhile_append_of_pos before]
  simp

theorem colon_notMem_dataName : colon ∉ dataName := by decide

theorem fieldName_dataLine (value : List UInt8) : fieldName (dataLine value) = dataName :=
  fieldName_colon dataName (space :: value) colon_notMem_dataName

theorem fieldValue_dataLine (value : List UInt8) : fieldValue (dataLine value) = value := by
  rw [dataLine, fieldValue_colon _ _ colon_notMem_dataName]
  simp [dropSpace]

theorem fieldName_append (line value : List UInt8) (started : line ≠ []) :
    fieldName (line ++ dataLine value) = dataName ↔ dataName ++ [colon] <+: line := by
  by_cases named : colon ∈ line
  · obtain ⟨name, rest, rfl, plain⟩ := List.eq_append_cons_of_mem named
    rw [List.append_assoc, List.cons_append, fieldName_colon name _ plain]
    constructor
    · rintro rfl
      exact ⟨rest, by simp⟩
    · rintro ⟨tail, same⟩
      have left := fieldName_colon dataName tail colon_notMem_dataName
      rw [← fieldName_colon name rest plain, ← same]
      simpa using left
  · have unnamed : colon ∉ line ++ dataName := by
      simp [named, colon_notMem_dataName]
    rw [dataLine, ← List.append_assoc, fieldName_colon _ _ unnamed]
    constructor
    · intro same
      exact absurd (List.append_left_eq_self.mp same) started
    · intro isPrefix
      exact absurd (isPrefix.subset (by simp)) named

theorem length_dropSpace (bytes : List UInt8) : bytes.length ≤ (dropSpace bytes).length + 1 := by
  cases bytes with
  | nil => simp [dropSpace]
  | cons b rest =>
      simp only [dropSpace]
      split <;> simp

/-- Where the stream may stop for an appended `data` line to be an event of its
own: between two events; or, by coincidence, inside a line of another field
when the pending data is already the value. -/
def Parser.Takes (p : Parser) (value : List UInt8) : Prop :=
  (p.line = [] ∧ p.pending = none) ∨
    (p.line ≠ [] ∧ ¬ dataName ++ [colon] <+: p.line ∧ p.pending = some value)

theorem pending_data (p : Parser) (value : List UInt8) :
    { p with data := p.data ++ value ++ [LF] }.pending = some (p.data ++ value) := by
  simp [Parser.pending]

theorem pending_none (p : Parser) : p.pending = none ↔ p.data = [] := by
  unfold Parser.pending
  split_ifs <;> simp_all

theorem field_pending (p : Parser) (line : List UInt8) (other : fieldName line ≠ dataName) :
    (p.field line).pending = p.pending := by
  simp only [Parser.field, other, if_false]
  split_ifs <;> rfl

theorem pending_dataLine (p : Parser) (value : List UInt8) :
    (p.field (p.line ++ dataLine value)).pending = some value ↔ p.Takes value := by
  unfold Parser.Takes
  by_cases started : p.line = []
  · have stored : (p.field (p.line ++ dataLine value)).pending = some (p.data ++ value) := by
      rw [started, List.nil_append, Parser.field, fieldName_dataLine, fieldValue_dataLine, if_pos rfl]
      exact pending_data p value
    rw [stored, pending_none]
    simp [started]
  · by_cases isData : dataName ++ [colon] <+: p.line
    · obtain ⟨rest, line⟩ := isData
      have name := (fieldName_append p.line value started).mpr ⟨rest, line⟩
      have stored : (p.field (p.line ++ dataLine value)).pending =
          some (p.data ++ dropSpace (rest ++ dataLine value)) := by
        rw [Parser.field, if_pos name, pending_data, ← line, List.append_assoc, List.append_assoc,
          List.singleton_append, fieldValue_colon _ _ colon_notMem_dataName]
      -- what is stored is longer than the value
      have long := length_dropSpace (rest ++ dataLine value)
      have different : p.data ++ dropSpace (rest ++ dataLine value) ≠ value := by
        intro same
        have := congrArg List.length same
        simp [dataLine, dataName] at this long
        omega
      simp [stored, different, started, line ▸ List.prefix_append (dataName ++ [colon]) rest]
    · have other : fieldName (p.line ++ dataLine value) ≠ dataName :=
        fun name => isData ((fieldName_append p.line value started).mp name)
      rw [field_pending p _ other]
      simp [started, isData]

/-- Appending `data: value` and an empty line to a stream adds exactly one event
with that data, after all events of the stream, if and only if the stream stops
where the parser takes it. -/
theorem events_append_data (bytes value : List UInt8) (plain : Plain value) :
    (∃ message, events (bytes ++ (dataLine value ++ [LF, LF])) = events bytes ++ [message] ∧
        message.data = value) ↔
      (parserAfter bytes).Takes value := by
  have plainName : Plain dataName := by
    simp [Plain, dataName, LF, CR]
  have plainLine : Plain (dataLine value) := by
    intro b member
    rcases List.mem_append.mp member with inName | member
    · exact plainName b inName
    · rcases List.mem_cons.mp member with rfl | member
      · decide
      · rcases List.mem_cons.mp member with rfl | member
        · decide
        · exact plain b member
  have line : dataLine value = 100 :: (dataLine value).tail := rfl
  rw [← pending_dataLine, line, List.cons_append, events_append _ _ _ (by decide),
    ← List.cons_append, feed_line _ _ _ (line ▸ plainLine)]
  simp only [List.append_cancel_left_eq]
  generalize (parserAfter bytes).field _ = p
  cases pending : p.pending with
  | none => simp [Parser.message, pending]
  | some data => simp [Parser.message, pending]

end RadixGates.EventStream
