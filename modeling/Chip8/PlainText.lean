/-! # Plain text

A text without its control characters, white space excepted, and without the sequences that would
steer a terminal. The log and the complaints about arguments are shown in this way on a stream that
is no terminal, while a terminal shows them as they are. -/
namespace Chip8.PlainText

def isBlank (c : Char) : Bool := c = '\t' ∨ c = '\n' ∨ c = '\x0c' ∨ c = '\r'

def isGraphic (c : Char) : Bool := ' ' ≤ c ∧ c ≠ '\x7f'

def isIntermediate (c : Char) : Bool := ' ' ≤ c ∧ c ≤ '/'

def isParameter (c : Char) : Bool := '0' ≤ c ∧ c ≤ '?'

def isFinal (c : Char) : Bool := '@' ≤ c ∧ c ≤ '~'

/-- The byte 9C closes a string, even as a part of a longer character. -/
def closesString (c : Char) : Bool := (String.utf8EncodeChar c).contains 0x9c

/-- What may follow an escape character and let white space through. -/
inductive Sequence
  | escape
  | intermediate
  | control
  deriving DecidableEq

/-- The part of a text that a character is read in. -/
inductive Passage
  | text
  | inside (s : Sequence)
  /-- Text after white space in a sequence, which the next control character takes up again. -/
  | aside (s : Sequence)
  | deviceEntry
  | deviceParameters
  | deviceIntermediates
  | string
  | systemCommand
  deriving DecidableEq

def Sequence.next (s : Sequence) (c : Char) : Passage :=
  match s with
  | escape =>
    if c = '[' then .inside .control
    else if c = ']' then .systemCommand
    else if c = 'P' then .deviceEntry
    else if c = 'X' ∨ c = '^' ∨ c = '_' then .string
    else if isIntermediate c then .inside .intermediate
    else if isParameter c ∨ isFinal c then .text
    else .inside .escape
  | intermediate => if isParameter c ∨ isFinal c then .text else .inside .intermediate
  | control => if isFinal c then .text else .inside .control

namespace Passage

/-- An escape character opens a sequence anywhere, and the two cancel characters end any. A
character beyond ASCII ends an interrupted one. -/
def next (p : Passage) (c : Char) : Passage :=
  if c = '\x1b' then .inside .escape
  else if c = '\x18' ∨ c = '\x1a' then .text
  else match p with
    | text => .text
    | inside s => if isBlank c then .aside s else s.next c
    | aside s =>
      if '\x7f' < c then .text else if isBlank c ∨ isGraphic c then .aside s else .inside s
    | deviceEntry =>
      if isIntermediate c then .deviceIntermediates
      else if isParameter c then .deviceParameters
      else if isFinal c then .string
      else .deviceEntry
    | deviceParameters =>
      if isIntermediate c then .deviceIntermediates
      else if '<' ≤ c ∧ c ≤ '~' then .string
      else .deviceParameters
    | deviceIntermediates =>
      if isParameter c ∨ isFinal c then .string else .deviceIntermediates
    | string => if closesString c then .text else .string
    | systemCommand => if c = '\x07' then .text else .systemCommand

def shows (p : Passage) (c : Char) : Bool :=
  match p with
  | text | aside _ => isBlank c ∨ isGraphic c
  | inside _ => isBlank c
  | _ => false

def strip (p : Passage) : List Char → List Char
  | [] => []
  | c :: cs => if p.shows c then c :: (p.next c).strip cs else (p.next c).strip cs

theorem next_text (c : Char) (h : isBlank c ∨ isGraphic c) : text.next c = text := by
  have : c ≠ '\x1b' := by rintro rfl; revert h; decide
  simp [next, this]

/-- A text without control characters is plain. -/
theorem strip_text (cs : List Char) (h : ∀ c ∈ cs, isBlank c ∨ isGraphic c) :
    text.strip cs = cs := by
  induction cs with
  | nil => rfl
  | cons c cs ih =>
    have hc := h c List.mem_cons_self
    have hs : text.shows c = true := by simpa [shows] using hc
    rw [strip, if_pos hs, next_text c hc, ih fun d hd => h d (List.mem_cons_of_mem c hd)]

end Passage

def ofString (s : String) : String := .ofList (Passage.text.strip s.toList)

end Chip8.PlainText
